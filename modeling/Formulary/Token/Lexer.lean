import Formulary.Grammar
import Formulary.Numeral

/-!
# Cutting a text into tokens

Whitespace separates tokens and is dropped. The first character of a token decides what the token
is: a digit, or a sign with a digit behind it, starts a numeral; an ASCII letter or an underscore
starts an identifier; a character that occurs in symbols of the grammar starts a symbol; nothing
else starts a token. Each token is as long as it can be (`Lexer.cutToken`). A numeral must not run
into a letter or digit, and a symbol must be registered as a whole.

A lexer (`Lexer`) hands out one token after the other. It is exhausted after the end of the text or
the first error and stays so (`Lexer.next_exhausted`). Every token takes at least one character
(`Lexer.length_lt_of_cutToken`), which is why `Lexer.run` ends.
-/

set_option autoImplicit false
set_option relaxedAutoImplicit false

namespace Formulary

open Text (Cutting)

/-- A text on its way into tokens. -/
inductive Lexer
  /-- The rest of the text is still to be cut. -/
  | reading (rest : List Char)
  /-- The text has ended, or an error was met. -/
  | exhausted
  deriving DecidableEq

/-- The outcome of cutting a whole text: the tokens up to its end or to the first error, the error,
the text from where the error was met, and the lexer behind the last token or error. -/
structure LexerRun where
  tokens : List Token
  failure : Option LexError
  rest : List Char
  behind : Lexer
  deriving DecidableEq

namespace Lexer

/-- The lexer before its first token. -/
def ofText (text : String) : Lexer := .reading text.toList

/-- The text that the lexer has still to cut. -/
def remaining : Lexer → List Char
  | .reading rest => rest
  | .exhausted => []

/-! ### One token -/

/-- A token together with the text behind it. -/
abbrev Cut := Except LexError (Token × List Char)

/-- Cuts a numeral, which must not run into a letter or digit. -/
def cutNumber (text : List Char) : Cut :=
  let numeral := Numeral.cut text
  match numeral.2.head?.filter Char.isAlphanum with
  | some c => .error (.badNumberSyntax (String.ofList (numeral.1 ++ [c])))
  | none => .ok (⟨.number, String.ofList numeral.1⟩, numeral.2)

/-- Cuts an identifier. -/
def cutIdentifier (text : List Char) : Cut :=
  let name := Cutting.many Grammar.isNameChar text
  .ok (⟨.identifier, String.ofList name.1⟩, name.2)

/-- The leading characters of symbols, of which no more are taken once their length in bytes has
reached `room`. -/
def symbolWindow (g : Grammar) : Nat → List Char → List Char
  | _, [] => []
  | room, c :: rest =>
    if 0 < room && g.isSymbolChar c then c :: symbolWindow g (room - c.utf8Size) rest else []

/-- The longest registered symbol among the first characters of a window, at most `length` of them:
its kind and its number of characters. -/
def longestSymbol (g : Grammar) (window : List Char) : Nat → Option (TokenKind × Nat)
  | 0 => none
  | length + 1 =>
    match g.symbolKind? (String.ofList (window.take (length + 1))) with
    | some kind => some (kind, length + 1)
    | none => longestSymbol g window length

/-- Cuts the longest registered symbol. -/
def cutSymbol (g : Grammar) (text : List Char) : Cut :=
  let window := symbolWindow g g.maxSymbolLength text
  match longestSymbol g window window.length with
  | none => .error (.invalidToken (String.ofList window))
  | some (kind, length) => .ok (⟨kind, String.ofList (text.take length)⟩, text.drop length)

/-- Whether a text that starts with `c` and goes on with `rest` starts with a numeral. A sign
belongs to a numeral only when a digit follows it. -/
def startsNumber (c : Char) (rest : List Char) : Bool :=
  c.isDigit || (Numeral.isSign c && rest.head?.any Char.isDigit)

/-- Cuts the token that starts with `c` and goes on in `rest`. -/
def cutToken (g : Grammar) (c : Char) (rest : List Char) : Cut :=
  if startsNumber c rest then cutNumber (c :: rest)
  else if Grammar.isNameStart c then cutIdentifier (c :: rest)
  else if g.isSymbolChar c then cutSymbol g (c :: rest)
  else .error (.unexpectedCharacter c)

/-! ### Token after token -/

/-- The next token or error, and the lexer behind it. -/
def next (g : Grammar) : Lexer → Option (Except LexError Token) × Lexer
  | .exhausted => (none, .exhausted)
  | .reading text =>
    match text.dropWhile Text.isWhitespace with
    | [] => (none, .exhausted)
    | c :: rest =>
      match cutToken g c rest with
      | .error error => (some (.error error), .exhausted)
      | .ok (token, rest) => (some (.ok token), .reading rest)

theorem next_exhausted (g : Grammar) : next g .exhausted = (none, .exhausted) := rfl

/-! ### Every token takes a character -/

theorem length_lt_of_cutNumber {c : Char} {rest left : List Char} {token : Token}
    (hstart : startsNumber c rest = true) (h : cutNumber (c :: rest) = .ok (token, left)) :
    left.length < (c :: rest).length := by
  have hfirst : c.isDigit = true ∨ Numeral.isSign c = true := by
    simp only [startsNumber, Bool.or_eq_true, Bool.and_eq_true] at hstart
    exact hstart.imp id And.left
  have hcut : (Numeral.cut (c :: rest)).2.length < (c :: rest).length :=
    Numeral.length_cut_lt hfirst
  have hleft : left = (Numeral.cut (c :: rest)).2 := by
    unfold cutNumber at h
    dsimp only at h
    split at h <;> simp_all
  rw [hleft]
  exact hcut

theorem length_lt_of_cutIdentifier {c : Char} {rest left : List Char} {token : Token}
    (hstart : Grammar.isNameStart c = true) (h : cutIdentifier (c :: rest) = .ok (token, left)) :
    left.length < (c :: rest).length := by
  have hname : Grammar.isNameChar c = true := Grammar.isNameChar_of_isNameStart hstart
  have hleft : left = rest.dropWhile Grammar.isNameChar := by
    simp_all [cutIdentifier, Cutting.many]
  rw [hleft, List.length_cons]
  exact Nat.lt_succ_of_le (List.dropWhile_sublist _).length_le

theorem longestSymbol_pos {g : Grammar} {window : List Char} {bound length : Nat}
    {kind : TokenKind} (h : longestSymbol g window bound = some (kind, length)) : 0 < length := by
  induction bound with
  | zero => simp [longestSymbol] at h
  | succ bound ih =>
    unfold longestSymbol at h
    split at h
    · simp only [Option.some.injEq, Prod.mk.injEq] at h
      omega
    · exact ih h

theorem length_lt_of_cutSymbol {g : Grammar} {c : Char} {rest left : List Char} {token : Token}
    (h : cutSymbol g (c :: rest) = .ok (token, left)) : left.length < (c :: rest).length := by
  unfold cutSymbol at h
  dsimp only at h
  split at h
  · simp at h
  · rename_i kind length hlongest
    have hpos := longestSymbol_pos hlongest
    have hleft : (c :: rest).drop length = left := by simp_all
    rw [← hleft, List.length_drop, List.length_cons]
    omega

/-- Assumes: a token was cut off a text. The text behind it is shorter. -/
theorem length_lt_of_cutToken {g : Grammar} {c : Char} {rest left : List Char} {token : Token}
    (h : cutToken g c rest = .ok (token, left)) : left.length < (c :: rest).length := by
  unfold cutToken at h
  split at h
  · rename_i hstart
    exact length_lt_of_cutNumber hstart h
  · split at h
    · rename_i hstart
      exact length_lt_of_cutIdentifier hstart h
    · split at h
      · exact length_lt_of_cutSymbol h
      · simp at h

/-- Assumes: the lexer hands out a token. Less text remains behind it. -/
theorem remaining_lt_of_next {g : Grammar} {lexer behind : Lexer} {token : Token}
    (h : next g lexer = (some (.ok token), behind)) :
    behind.remaining.length < lexer.remaining.length := by
  unfold next at h
  split at h
  · simp at h
  · rename_i text
    split at h
    · simp at h
    · rename_i c rest hskip
      split at h
      · simp at h
      · rename_i left hcut
        simp only [Prod.mk.injEq] at h
        have hlength := (List.dropWhile_sublist Text.isWhitespace (l := text)).length_le
        have hshorter := length_lt_of_cutToken hcut
        rw [hskip] at hlength
        rw [← h.2]
        exact Nat.lt_of_lt_of_le hshorter hlength

/-! ### A whole text -/

/-- Takes tokens from the lexer up to the end of its text or to the first error. -/
def run (g : Grammar) (lexer : Lexer) : LexerRun :=
  match h : next g lexer with
  | (none, behind) => ⟨[], none, [], behind⟩
  | (some (.error error), behind) =>
    ⟨[], some error, lexer.remaining.dropWhile Text.isWhitespace, behind⟩
  | (some (.ok token), behind) =>
    have := remaining_lt_of_next h
    let others := run g behind
    { others with tokens := token :: others.tokens }
  termination_by lexer.remaining.length

end Lexer

end Formulary
