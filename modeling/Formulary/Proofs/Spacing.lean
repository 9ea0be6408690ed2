import Formulary.Proofs.Registration
import Formulary.Token.Lexer
import Mathlib.Data.List.TakeWhile
import Mathlib.Data.String.Basic

/-!
# Tokens with whitespace between them

Between two tokens a text may have any whitespace, and where it has some, no token runs on into the
next one. `Spaced` describes the texts that have whitespace between all tokens.

Main statement: when every token is one that stands for itself (`Token.Stands`), a text with
whitespace between the tokens is cut into these tokens (`Lexer.run_of_spaced`). Identifiers stand
for themselves (`Token.stands_identifier`), and so does every registered symbol of a grammar with
consistent tables (`Grammar.Consistent.stands_symbol`).
-/

set_option autoImplicit false
set_option relaxedAutoImplicit false

namespace Formulary

/-! ### Characters that are not whitespace -/

namespace Text

theorem toNat_of_isWhitespace {c : Char} (h : isWhitespace c = true) :
    c.toNat ≤ 32 ∨ 127 < c.toNat := by
  obtain ⟨range, hrange, hlower, hupper⟩ := (CodePoints.has_iff _ c).mp h
  have hfar : ∀ range ∈ whitespaceRanges.ranges, range.2 ≤ 32 ∨ 127 < range.1 := by decide
  have hthis := hfar range hrange
  omega

theorem toNat_of_isDigit {c : Char} (h : c.isDigit = true) : 48 ≤ c.toNat ∧ c.toNat ≤ 57 := by
  simp only [Char.isDigit, Bool.and_eq_true, decide_eq_true_eq, UInt32.le_iff_toNat_le,
    ge_iff_le] at h
  exact h

theorem toNat_of_isAlpha {c : Char} (h : c.isAlpha = true) :
    65 ≤ c.toNat ∧ c.toNat ≤ 90 ∨ 97 ≤ c.toNat ∧ c.toNat ≤ 122 := by
  rcases (Bool.or_eq_true _ _).mp h with hupper | hlower
  · obtain ⟨hfrom, hto⟩ : 'A'.val ≤ c.val ∧ c.val ≤ 'Z'.val := of_decide_eq_true hupper
    exact Or.inl ⟨UInt32.le_iff_toNat_le.mp hfrom, UInt32.le_iff_toNat_le.mp hto⟩
  · obtain ⟨hfrom, hto⟩ := (Bool.and_eq_true _ _).mp hlower
    exact Or.inr ⟨UInt32.le_iff_toNat_le.mp (of_decide_eq_true hfrom),
      UInt32.le_iff_toNat_le.mp (of_decide_eq_true hto)⟩

theorem isAlphanum_of_isWhitespace {c : Char} (h : isWhitespace c = true) :
    c.isAlphanum = false := by
  cases halphanum : c.isAlphanum with
  | false => rfl
  | true =>
    have hspace := toNat_of_isWhitespace h
    rcases Bool.or_eq_true _ _ ▸ halphanum with hletter | hdigit
    · have hrange := toNat_of_isAlpha hletter
      omega
    · have hrange := toNat_of_isDigit hdigit
      omega

/-- Whether the text has ended or goes on with whitespace. -/
def Apart (text : List Char) : Prop := ∀ c ∈ text.head?, isWhitespace c = true

theorem apart_nil : Apart [] := fun _ h ↦ by cases h

theorem Apart.head {text : List Char} (h : Apart text) {p : Char → Bool}
    (hp : ∀ c, isWhitespace c = true → p c = false) : ∀ c ∈ text.head?, p c = false :=
  fun c hc ↦ hp c (h c hc)

theorem dropWhile_blanks {blanks : List Char} (h : ∀ c ∈ blanks, isWhitespace c = true) :
    blanks.dropWhile isWhitespace = [] :=
  List.dropWhile_eq_nil_iff.mpr h

theorem dropWhile_blanks_append {blanks : List Char} (h : ∀ c ∈ blanks, isWhitespace c = true)
    {c : Char} (hc : isWhitespace c = false) (rest : List Char) :
    (blanks ++ c :: rest).dropWhile isWhitespace = c :: rest := by
  rw [List.dropWhile_append_of_pos h, List.dropWhile_cons_of_neg (by rw [hc]; decide)]

namespace Cutting

variable {p : Char → Bool}

/-- Assumes: a text begins with characters of a class, and no other character of the class follows
them. These are the leading characters of the class. -/
theorem many_append {taken rest : List Char} (htaken : ∀ c ∈ taken, p c = true)
    (hrest : ∀ c ∈ rest.head?, p c = false) : many p (taken ++ rest) = (taken, rest) := by
  have hnothing : rest.takeWhile p = [] ∧ rest.dropWhile p = rest := by
    cases rest with
    | nil => exact ⟨rfl, rfl⟩
    | cons c rest =>
      have hc := hrest c rfl
      simp [hc]
  rw [many, List.takeWhile_append_of_pos htaken, List.dropWhile_append_of_pos htaken, hnothing.1,
    hnothing.2, List.append_nil]

theorem behind_of_head {text : List Char} (h : ∀ c ∈ text.head?, p c = false) (cut : Cutting) :
    behind p cut text = ([], text) := by
  cases text with
  | nil => rfl
  | cons c rest =>
    have hc := h c rfl
    simp [behind, hc]

theorem behind_cons {c : Char} (hc : p c = true) (cut : Cutting) (rest : List Char) :
    behind p cut (c :: rest) = (c :: (cut rest).1, (cut rest).2) := if_pos hc

theorem followedBy_eq {first second : Cutting} {text taken more rest left : List Char}
    (hfirst : first text = (taken, rest)) (hsecond : second rest = (more, left)) :
    followedBy first second text = (taken ++ more, left) := by
  simp only [followedBy, hfirst, hsecond]

end Cutting

end Text

open Text

/-! ### Texts with whitespace between the tokens -/

/-- Whether a text consists of the given tokens with whitespace between them. There may be
whitespace before the first token and behind the last as well. -/
inductive Spaced : List Token → List Char → Prop
  | blank {blanks : List Char} (hblanks : ∀ c ∈ blanks, isWhitespace c = true) : Spaced [] blanks
  | token {token : Token} {tokens : List Token} {blanks rest : List Char}
    (hblanks : ∀ c ∈ blanks, isWhitespace c = true) (hapart : Apart rest)
    (hrest : Spaced tokens rest) : Spaced (token :: tokens) (blanks ++ token.text.toList ++ rest)

/-- The text with a blank before each token. -/
theorem spaced_flatMap (tokens : List Token) :
    Spaced tokens (tokens.flatMap fun token ↦ ' ' :: token.text.toList) := by
  induction tokens with
  | nil => exact .blank fun c hc ↦ by cases hc
  | cons token tokens ih =>
    have hblank : ∀ c ∈ [' '], isWhitespace c = true := List.forall_mem_singleton.mpr rfl
    have hapart : Apart (tokens.flatMap fun token ↦ ' ' :: token.text.toList) := by
      intro c hc
      cases tokens with
      | nil => cases hc
      | cons next tokens =>
        cases hc
        exact hblank ' ' List.mem_cons_self
    exact .token hblank hapart ih

/-- Whether the token is cut off as it is where the text ends or goes on with whitespace. -/
def Token.Stands (g : Grammar) (token : Token) : Prop :=
  ∃ c cs, token.text.toList = c :: cs ∧ isWhitespace c = false ∧
    ∀ rest, Apart rest → Lexer.cutToken g c (cs ++ rest) = .ok (token, rest)

namespace Lexer

variable {g : Grammar}

theorem run_of_next_none {lexer behind : Lexer} (h : next g lexer = (none, behind)) :
    run g lexer = ⟨[], none, [], behind⟩ := by
  rw [run]
  split <;> simp_all

theorem run_of_next_ok {lexer behind : Lexer} {token : Token}
    (h : next g lexer = (some (.ok token), behind)) :
    run g lexer = { run g behind with tokens := token :: (run g behind).tokens } := by
  rw [run]
  split <;> simp_all

/-- A token that stands for itself is the next one between whitespace. -/
theorem next_of_stands {token : Token} (h : token.Stands g) {blanks rest : List Char}
    (hblanks : ∀ c ∈ blanks, isWhitespace c = true) (hapart : Apart rest) :
    next g (.reading (blanks ++ token.text.toList ++ rest)) = (some (.ok token), .reading rest) := by
  obtain ⟨c, cs, htext, hc, hcut⟩ := h
  have hskip : (blanks ++ token.text.toList ++ rest).dropWhile isWhitespace = c :: (cs ++ rest) := by
    rw [List.append_assoc, htext, List.cons_append, dropWhile_blanks_append hblanks hc]
  simp only [next, hskip, hcut rest hapart]

/-- Assumes: every token stands for itself. A text that consists of the tokens with whitespace
between them is cut into these tokens. -/
theorem run_of_spaced {tokens : List Token} {text : List Char} (h : Spaced tokens text)
    (hstands : ∀ token ∈ tokens, token.Stands g) :
    run g (.reading text) = ⟨tokens, none, [], .exhausted⟩ := by
  induction h with
  | @blank blanks hblanks =>
    refine run_of_next_none ?_
    simp only [next, dropWhile_blanks hblanks]
  | @token token tokens blanks rest hblanks hapart hrest ih =>
    have hnext := next_of_stands (hstands token List.mem_cons_self) hblanks hapart
    have hothers := fun other hother ↦ hstands other (List.mem_cons_of_mem token hother)
    rw [run_of_next_ok hnext, ih hothers]

end Lexer

/-! ### Identifiers -/

theorem isSign_of_isAlphanum {c : Char} (h : c.isAlphanum = true) : Numeral.isSign c = false := by
  cases hsign : Numeral.isSign c with
  | false => rfl
  | true =>
    simp only [Numeral.isSign, Bool.or_eq_true, beq_iff_eq] at hsign
    rcases hsign with rfl | rfl <;> revert h <;> decide

theorem Grammar.isNameChar_of_isWhitespace {c : Char} (h : isWhitespace c = true) :
    isNameChar c = false := by
  have hunderscore : c ≠ '_' := by
    rintro rfl
    revert h
    decide
  simp [isNameChar, isAlphanum_of_isWhitespace h, hunderscore]

theorem Lexer.startsNumber_of_isNameStart {c : Char} (h : Grammar.isNameStart c = true)
    (rest : List Char) : startsNumber c rest = false := by
  simp only [Grammar.isNameStart, Bool.or_eq_true, beq_iff_eq] at h
  rcases h with halpha | rfl
  · have hdigit : c.isDigit = false := by
      cases hdigit : c.isDigit with
      | false => rfl
      | true =>
        have hletter := toNat_of_isAlpha halpha
        have hrange := toNat_of_isDigit hdigit
        omega
    have hsign : Numeral.isSign c = false :=
      isSign_of_isAlphanum (by simp [Char.isAlphanum, halpha])
    simp [startsNumber, hdigit, hsign]
  · have hdigit : Char.isDigit '_' = false := by decide
    have hsign : Numeral.isSign '_' = false := by decide
    simp [startsNumber, hdigit, hsign]

/-- An identifier stands for itself. -/
theorem Token.stands_identifier (g : Grammar) {name : String}
    (hname : Grammar.isIdentifier name = true) : Stands g ⟨.identifier, name⟩ := by
  unfold Grammar.isIdentifier at hname
  split at hname
  · cases hname
  · rename_i c cs hchars
    simp only [Bool.and_eq_true, List.all_eq_true] at hname
    obtain ⟨hstart, hrest⟩ := hname
    have hfirst : Grammar.isNameChar c = true := Grammar.isNameChar_of_isNameStart hstart
    refine ⟨c, cs, hchars, ?_, fun rest hapart ↦ ?_⟩
    · cases hspace : isWhitespace c with
      | false => rfl
      | true =>
        rw [Grammar.isNameChar_of_isWhitespace hspace] at hfirst
        cases hfirst
    · have hmany : Cutting.many Grammar.isNameChar (c :: (cs ++ rest)) = (c :: cs, rest) := by
        rw [← List.cons_append]
        refine Cutting.many_append (fun other hother ↦ ?_)
          (hapart.head fun _ ↦ Grammar.isNameChar_of_isWhitespace)
        rcases List.mem_cons.mp hother with rfl | hother
        · exact hfirst
        · exact hrest other hother
      rw [Lexer.cutToken, Lexer.startsNumber_of_isNameStart hstart, if_neg Bool.false_ne_true,
        if_pos hstart, Lexer.cutIdentifier, hmany, ← hchars, String.ofList_toList]

/-! ### Symbols -/

namespace Lexer

variable {g : Grammar}

/-- Assumes: characters of symbols, no more bytes than there is room for, and then no character of a
symbol. The window on them shows all of them. -/
theorem symbolWindow_append {room : Nat} {symbol rest : List Char}
    (hchars : ∀ c ∈ symbol, g.isSymbolChar c = true)
    (hrest : ∀ c ∈ rest.head?, g.isSymbolChar c = false) (hroom : String.utf8Len symbol ≤ room) :
    symbolWindow g room (symbol ++ rest) = symbol := by
  induction symbol generalizing room with
  | nil =>
    cases rest with
    | nil => rfl
    | cons c rest =>
      have hc := hrest c rfl
      simp [symbolWindow, hc]
  | cons c symbol ih =>
    have hpos := c.utf8Size_pos
    simp only [String.utf8Len] at hroom
    have hc := hchars c List.mem_cons_self
    have hmore : 0 < room := by omega
    have hothers : symbolWindow g (room - c.utf8Size) (symbol ++ rest) = symbol :=
      ih (fun other hother ↦ hchars other (List.mem_cons_of_mem c hother)) (by omega)
    simp only [List.cons_append, symbolWindow, hc, hmore, decide_true, Bool.and_self, if_true,
      hothers]

theorem longestSymbol_of_symbolKind? {window : List Char} {kind : TokenKind} (hne : window ≠ [])
    (hkind : g.symbolKind? (String.ofList window) = some kind) :
    longestSymbol g window window.length = some (kind, window.length) := by
  cases window with
  | nil => exact (hne rfl).elim
  | cons c window =>
    have htake : (c :: window).take (window.length + 1) = c :: window :=
      List.take_of_length_le (Nat.le_refl _)
    simp only [List.length_cons, longestSymbol, htake, hkind]

end Lexer

namespace Grammar

theorem isOperatorChar_of_isOperatorText {text : String} (h : isOperatorText text = true) :
    ∀ c ∈ text.toList, isOperatorChar c = true := by
  simp only [isOperatorText, Bool.and_eq_true, List.all_eq_true] at h
  exact h.2

theorem toList_ne_nil_of_isOperatorText {text : String} (h : isOperatorText text = true) :
    text.toList ≠ [] := by
  intro hnil
  rw [String.toList_eq_nil_iff.mp hnil] at h
  cases h

section OperatorChar

variable {c : Char} (h : isOperatorChar c = true)

include h

theorem isAlphanum_of_isOperatorChar : c.isAlphanum = false := by
  cases hletter : c.isAlphanum with
  | false => rfl
  | true => simp [isOperatorChar, isAlphanumeric_of_core c hletter] at h

theorem isDigit_of_isOperatorChar : c.isDigit = false := by
  have hletter := isAlphanum_of_isOperatorChar h
  simp only [Char.isAlphanum, Bool.or_eq_false_iff] at hletter
  exact hletter.2

theorem isNameStart_of_isOperatorChar : isNameStart c = false := by
  have hletter := isAlphanum_of_isOperatorChar h
  simp only [Char.isAlphanum, Bool.or_eq_false_iff] at hletter
  simp only [isOperatorChar, Bool.not_eq_true', Bool.or_eq_false_iff] at h
  simp only [isNameStart, hletter.1, h.1.2, Bool.or_self]

theorem isWhitespace_of_isOperatorChar : isWhitespace c = false := by
  simp only [isOperatorChar, Bool.not_eq_true', Bool.or_eq_false_iff] at h
  exact h.2

end OperatorChar

namespace Consistent

variable {g : Grammar}

theorem isSymbolChar_of_isWhitespace (hg : g.Consistent) {c : Char} (h : isWhitespace c = true) :
    g.isSymbolChar c = false := by
  cases hc : g.isSymbolChar c with
  | false => rfl
  | true =>
    obtain ⟨text, symbol, hsymbol, hmem⟩ := (hg.isSymbolChar_iff c).mp hc
    have hchar := isOperatorChar_of_isOperatorText (hg.isOperatorText text symbol hsymbol) c hmem
    rw [isWhitespace_of_isOperatorChar hchar] at h
    cases h

/-- A registered symbol stands for itself. -/
theorem stands_symbol (hg : g.Consistent) {text : String} {symbol : Symbol}
    (hsymbol : g.symbol? text = some symbol) : Token.Stands g ⟨symbol.kind, text⟩ := by
  have hwritten := hg.isOperatorText text symbol hsymbol
  have hchars := isOperatorChar_of_isOperatorText hwritten
  have hknown : ∀ c ∈ text.toList, g.isSymbolChar c = true := fun c hc ↦
    (hg.isSymbolChar_iff c).mpr ⟨text, symbol, hsymbol, hc⟩
  have hroom : String.utf8Len text.toList ≤ g.maxSymbolLength := by
    rw [← String.utf8ByteSize_ofList, String.ofList_toList]
    exact hg.le_maxSymbolLength text symbol hsymbol
  have hkind : g.symbolKind? (String.ofList text.toList) = some symbol.kind := by
    rw [String.ofList_toList, symbolKind?, hsymbol, Option.map_some]
  have hlongest :=
    Lexer.longestSymbol_of_symbolKind? (toList_ne_nil_of_isOperatorText hwritten) hkind
  cases hlist : text.toList with
  | nil => exact (toList_ne_nil_of_isOperatorText hwritten hlist).elim
  | cons c cs =>
    have hc := hchars c (hlist ▸ List.mem_cons_self)
    refine ⟨c, cs, hlist, isWhitespace_of_isOperatorChar hc, fun rest hapart ↦ ?_⟩
    have hwindow : Lexer.symbolWindow g g.maxSymbolLength (c :: (cs ++ rest)) = text.toList := by
      rw [← List.cons_append, ← hlist]
      exact Lexer.symbolWindow_append hknown
        (hapart.head fun _ ↦ hg.isSymbolChar_of_isWhitespace) hroom
    have hnumber : Lexer.startsNumber c (cs ++ rest) = false := by
      have hnext : (cs ++ rest).head?.any Char.isDigit = false := by
        cases cs with
        | nil =>
          cases rest with
          | nil => rfl
          | cons other rest =>
            have hletter := isAlphanum_of_isWhitespace (hapart other rfl)
            simp only [Char.isAlphanum, Bool.or_eq_false_iff] at hletter
            exact hletter.2
        | cons other cs =>
          exact isDigit_of_isOperatorChar (hchars other (by rw [hlist]; simp))
      rw [Lexer.startsNumber, isDigit_of_isOperatorChar hc, hnext, Bool.and_false, Bool.or_false]
    have hlength : text.toList.length = (c :: cs).length := by rw [hlist]
    simp only [Lexer.cutToken, hnumber, isNameStart_of_isOperatorChar hc, Bool.false_eq_true,
      if_false, hknown c (hlist ▸ List.mem_cons_self), if_true, Lexer.cutSymbol, hwindow, hlongest]
    rw [← List.cons_append, hlength, List.take_left, List.drop_left, ← hlist, String.ofList_toList]

theorem stands_openParen (hg : g.Consistent) : Token.Stands g ⟨.openParen, "("⟩ :=
  hg.stands_symbol hg.openParen

theorem stands_closeParen (hg : g.Consistent) : Token.Stands g ⟨.closeParen, ")"⟩ :=
  hg.stands_symbol hg.closeParen

theorem stands_comma (hg : g.Consistent) : Token.Stands g ⟨.comma, ","⟩ :=
  hg.stands_symbol hg.comma

theorem stands_operator (hg : g.Consistent) {symbol : String} {o : Operator}
    (ho : g.operator? symbol = some o) : Token.Stands g ⟨.operator, symbol⟩ := by
  obtain ⟨meaning, hmeaning, hoperator⟩ := Option.bind_eq_some_iff.mp ho
  cases meaning with
  | operator other => exact hg.stands_symbol hmeaning
  | openParen => cases hoperator
  | closeParen => cases hoperator
  | comma => cases hoperator

end Consistent

end Grammar

end Formulary
