import Formulary.Proofs.Spacing

/-!
# How a lexer divides a text

A run of a lexer is described once, token by token (`Lexer.Runs`): each token and the error, if there
is one, is cut off behind the whitespace that comes next. What a token can be is described once as
well (`Lexer.Cuts`): a numeral that runs into no letter or digit, an identifier, or a registered
symbol.

Main statement: the tokens divide the text (`Lexer.Runs.divides`). They stand in it in their order
and are not empty, there is nothing but whitespace between them, and what an error shows is a
nonempty piece of the text from where it was met.
-/

set_option autoImplicit false
set_option relaxedAutoImplicit false

namespace Formulary

open Text

namespace Lexer

variable {g : Grammar} {c : Char} {rest left : List Char} {token : Token} {error : LexError}

/-! ### What can be cut off -/

/-- What can be cut off a text that starts with `c` and goes on with `rest`: a token, and the text
behind it. -/
inductive Cuts (g : Grammar) (c : Char) (rest : List Char) : Token → List Char → Prop
  /-- A numeral that runs into no letter or digit. -/
  | number (hstart : startsNumber c rest = true)
    (hend : ∀ other ∈ (Numeral.cut (c :: rest)).2.head?, other.isAlphanum = false) :
    Cuts g c rest ⟨.number, String.ofList (Numeral.cut (c :: rest)).1⟩ (Numeral.cut (c :: rest)).2
  /-- An identifier. -/
  | identifier (hstart : Grammar.isNameStart c = true) :
    Cuts g c rest ⟨.identifier, String.ofList ((c :: rest).takeWhile Grammar.isNameChar)⟩
      ((c :: rest).dropWhile Grammar.isNameChar)
  /-- A registered symbol. -/
  | symbol {symbol : Symbol} {length : Nat} (hpos : 0 < length)
    (hsymbol : g.symbol? (String.ofList ((c :: rest).take length)) = some symbol) :
    Cuts g c rest ⟨symbol.kind, String.ofList ((c :: rest).take length)⟩
      ((c :: rest).drop length)

/-- The window shows a piece of the text. -/
theorem symbolWindow_isPrefix (g : Grammar) (room : Nat) (text : List Char) :
    symbolWindow g room text <+: text := by
  induction text generalizing room with
  | nil => exact List.nil_prefix
  | cons c rest ih =>
    rw [symbolWindow]
    split
    · exact (List.prefix_cons_inj c).mpr (ih (room - c.utf8Size))
    · exact List.nil_prefix

/-- The window on a character of a symbol shows at least that character. -/
theorem symbolWindow_cons (hg : g.Consistent) (hc : g.isSymbolChar c = true) (rest : List Char) :
    symbolWindow g g.maxSymbolLength (c :: rest) =
      c :: symbolWindow g (g.maxSymbolLength - c.utf8Size) rest := by
  have hroom : 0 < g.maxSymbolLength :=
    Nat.lt_of_lt_of_le (by decide) (hg.le_maxSymbolLength "(" .openParen hg.openParen)
  simp only [symbolWindow, hroom, hc, decide_true, Bool.and_self, if_true]

theorem take_symbolWindow {room length : Nat} {text : List Char}
    (hle : length ≤ (symbolWindow g room text).length) :
    (symbolWindow g room text).take length = text.take length := by
  obtain ⟨hidden, htext⟩ := symbolWindow_isPrefix g room text
  calc (symbolWindow g room text).take length
      = (symbolWindow g room text ++ hidden).take length :=
        (List.take_append_of_le_length hle).symm
    _ = text.take length := by rw [htext]

/-- A symbol that is found in a window is as long as it is said to be. -/
theorem symbolKind?_of_longestSymbol {window : List Char} {bound length : Nat} {kind : TokenKind}
    (h : longestSymbol g window bound = some (kind, length)) :
    length ≤ bound ∧ g.symbolKind? (String.ofList (window.take length)) = some kind := by
  induction bound with
  | zero => cases h
  | succ bound ih =>
    rw [longestSymbol] at h
    split at h
    · rename_i other hkind
      cases h
      exact ⟨Nat.le_refl _, hkind⟩
    · obtain ⟨hle, hkind⟩ := ih h
      exact ⟨Nat.le_succ_of_le hle, hkind⟩

/-! ### The longest symbol -/

/-- A scan finds the same when the symbols that it looks up have the same kinds. -/
theorem longestSymbol_congr {next : Grammar} {window other : List Char} {bound : Nat}
    (h : ∀ length ≤ bound, next.symbolKind? (String.ofList (other.take length)) =
      g.symbolKind? (String.ofList (window.take length))) :
    longestSymbol next other bound = longestSymbol g window bound := by
  induction bound with
  | zero => rfl
  | succ bound ih =>
    rw [longestSymbol, longestSymbol, h (bound + 1) (Nat.le_refl _),
      ih fun length hle ↦ h length (Nat.le_succ_of_le hle)]

/-- A longer scan finds the same when no symbol is as long as it. -/
theorem longestSymbol_of_le {window : List Char} {bound more : Nat} (hle : bound ≤ more)
    (hnone : ∀ length, bound < length → length ≤ more →
      g.symbolKind? (String.ofList (window.take length)) = none) :
    longestSymbol g window more = longestSymbol g window bound := by
  induction more, hle using Nat.le_induction with
  | base => rfl
  | succ more hle ih =>
    simp only [longestSymbol, hnone (more + 1) (Nat.lt_succ_of_le hle) (Nat.le_refl _)]
    exact ih fun length hlonger hmore ↦ hnone length hlonger (Nat.le_succ_of_le hmore)

/-- Assumes: characters of symbols in front of a text, no more bytes than there is room for. The
window on the text shows all of them. -/
theorem prefix_symbolWindow {room : Nat} {taken : List Char} (behind : List Char)
    (hchars : ∀ c ∈ taken, g.isSymbolChar c = true) (hroom : String.utf8Len taken ≤ room) :
    taken <+: symbolWindow g room (taken ++ behind) := by
  induction taken generalizing room with
  | nil => exact List.nil_prefix
  | cons c taken ih =>
    have hpos := c.utf8Size_pos
    simp only [String.utf8Len] at hroom
    have hmore : 0 < room := by omega
    have hothers := ih (fun other hother ↦ hchars other (List.mem_cons_of_mem c hother))
      (show String.utf8Len taken ≤ room - c.utf8Size by omega)
    simp only [List.cons_append, symbolWindow, hchars c List.mem_cons_self, hmore, decide_true,
      Bool.and_self, if_true]
    exact (List.prefix_cons_inj c).mpr hothers

/-- The window hides no symbol: the longest symbol in it is the longest one in front of the text. -/
theorem longestSymbol_symbolWindow (hg : g.Consistent) (text : List Char) :
    longestSymbol g (symbolWindow g g.maxSymbolLength text)
        (symbolWindow g g.maxSymbolLength text).length =
      longestSymbol g text text.length := by
  have hbound := (symbolWindow_isPrefix g g.maxSymbolLength text).length_le
  have hnone : ∀ length, (symbolWindow g g.maxSymbolLength text).length < length →
      length ≤ text.length → g.symbolKind? (String.ofList (text.take length)) = none := by
    intro length hlonger hle
    refine Option.eq_none_iff_forall_ne_some.mpr fun kind hkind ↦ ?_
    obtain ⟨symbol, hsymbol, -⟩ := Option.map_eq_some_iff.mp hkind
    have hchars : ∀ c ∈ text.take length, g.isSymbolChar c = true := fun c hc ↦
      (hg.isSymbolChar_iff c).mpr ⟨_, symbol, hsymbol, by rwa [String.toList_ofList]⟩
    have hroom := hg.le_maxSymbolLength _ symbol hsymbol
    rw [String.utf8ByteSize_ofList] at hroom
    have hshown : text.take length <+: symbolWindow g g.maxSymbolLength text := by
      have hprefix := prefix_symbolWindow (text.drop length) hchars hroom
      rwa [List.take_append_drop] at hprefix
    have hlength := hshown.length_le
    rw [List.length_take_of_le hle] at hlength
    omega
  calc longestSymbol g (symbolWindow g g.maxSymbolLength text)
          (symbolWindow g g.maxSymbolLength text).length
      = longestSymbol g text (symbolWindow g g.maxSymbolLength text).length :=
        longestSymbol_congr fun length hle ↦ by rw [take_symbolWindow hle]
    _ = longestSymbol g text text.length := (longestSymbol_of_le hbound hnone).symm

/-- The error where no symbol is in front of the text. -/
def symbolError (g : Grammar) (c : Char) (rest : List Char) : LexError :=
  if g.isSymbolChar c then
    .invalidToken (String.ofList (symbolWindow g g.maxSymbolLength (c :: rest)))
  else .unexpectedCharacter c

/-- Where neither a numeral nor an identifier starts, the token is the longest symbol in front. -/
theorem cutToken_eq_of_punctuation (hg : g.Consistent) (hnumber : startsNumber c rest = false)
    (hname : Grammar.isNameStart c = false) :
    cutToken g c rest = match longestSymbol g (c :: rest) (c :: rest).length with
      | none => .error (symbolError g c rest)
      | some (kind, length) =>
        .ok (⟨kind, String.ofList ((c :: rest).take length)⟩, (c :: rest).drop length) := by
  simp only [cutToken, hnumber, hname, Bool.false_eq_true, if_false, symbolError]
  by_cases hc : g.isSymbolChar c = true
  · have hwindow := longestSymbol_symbolWindow hg (c :: rest)
    cases hlongest : longestSymbol g (c :: rest) (c :: rest).length with
    | none => simp only [if_pos hc, cutSymbol, hwindow, hlongest]
    | some found => simp only [if_pos hc, cutSymbol, hwindow, hlongest]
  · have hnone : longestSymbol g (c :: rest) (c :: rest).length = none := by
      refine Option.eq_none_iff_forall_ne_some.mpr fun found hfound ↦ hc ?_
      obtain ⟨-, hkind⟩ := symbolKind?_of_longestSymbol hfound
      obtain ⟨symbol, hsymbol, -⟩ := Option.map_eq_some_iff.mp hkind
      refine (hg.isSymbolChar_iff c).mpr ⟨_, symbol, hsymbol, ?_⟩
      obtain ⟨shorter, hlength⟩ := Nat.exists_eq_succ_of_ne_zero (longestSymbol_pos hfound).ne'
      rw [String.toList_ofList, hlength, List.take_succ_cons]
      exact List.mem_cons_self
    simp only [if_neg hc, hnone]

/-! ### What is cut off -/

theorem cuts_of_cutNumber_eq_ok (hstart : startsNumber c rest = true)
    (h : cutNumber (c :: rest) = .ok (token, left)) : Cuts g c rest token left := by
  rw [cutNumber] at h
  split at h
  · cases h
  · rename_i hnone
    cases h
    refine .number hstart fun other hother ↦ ?_
    rw [Option.mem_def.mp hother] at hnone
    simpa [Option.filter] using hnone

theorem cuts_of_cutSymbol_eq_ok (h : cutSymbol g (c :: rest) = .ok (token, left)) :
    Cuts g c rest token left := by
  rw [cutSymbol] at h
  split at h
  · cases h
  · rename_i kind length hlongest
    cases h
    obtain ⟨hle, hkind⟩ := symbolKind?_of_longestSymbol hlongest
    rw [take_symbolWindow hle] at hkind
    obtain ⟨symbol, hsymbol, rfl⟩ := Option.map_eq_some_iff.mp hkind
    exact .symbol (longestSymbol_pos hlongest) hsymbol

/-- A token that is cut off is one of those that can be. -/
theorem cuts_of_cutToken_eq_ok (h : cutToken g c rest = .ok (token, left)) :
    Cuts g c rest token left := by
  rw [cutToken] at h
  split at h
  · rename_i hstart
    exact cuts_of_cutNumber_eq_ok hstart h
  · split at h
    · rename_i hstart
      cases h
      exact .identifier hstart
    · split at h
      · exact cuts_of_cutSymbol_eq_ok h
      · cases h

/-- The token and the text behind it are the text. -/
theorem Cuts.append_eq (h : Cuts g c rest token left) : token.text.toList ++ left = c :: rest := by
  cases h with
  | number => rw [String.toList_ofList, Numeral.divides_cut]
  | identifier => rw [String.toList_ofList, List.takeWhile_append_dropWhile]
  | symbol => rw [String.toList_ofList, List.take_append_drop]

end Lexer

/-! ### What an error shows -/

/-- The piece of the text that an error shows. -/
def LexError.shown : LexError → List Char
  | .badNumberSyntax text => text.toList
  | .unexpectedCharacter c => [c]
  | .invalidToken text => text.toList

namespace Lexer

variable {g : Grammar} {c : Char} {rest left : List Char} {token : Token} {error : LexError}

theorem shown_of_cutNumber_eq_error (h : cutNumber (c :: rest) = .error error) :
    error.shown ≠ [] ∧ error.shown <+: c :: rest := by
  rw [cutNumber] at h
  split at h
  · rename_i other hother
    cases h
    obtain ⟨hhead, -⟩ := Option.filter_eq_some_iff.mp hother
    obtain ⟨behind, hbehind⟩ := List.head?_eq_some_iff.mp hhead
    have htext := Numeral.divides_cut (c :: rest)
    rw [LexError.shown, String.toList_ofList]
    refine ⟨List.append_ne_nil_of_right_ne_nil _ (List.cons_ne_nil other []), behind, ?_⟩
    rw [List.append_assoc, List.singleton_append, ← hbehind, htext]
  · cases h

theorem shown_of_cutSymbol_eq_error (hg : g.Consistent) (hc : g.isSymbolChar c = true)
    (h : cutSymbol g (c :: rest) = .error error) :
    error.shown ≠ [] ∧ error.shown <+: c :: rest := by
  rw [cutSymbol] at h
  split at h
  · cases h
    rw [LexError.shown, String.toList_ofList]
    refine ⟨?_, symbolWindow_isPrefix g _ _⟩
    rw [symbolWindow_cons hg hc]
    exact List.cons_ne_nil _ _
  · cases h

/-- An error shows a nonempty piece of the text, from where it is met. -/
theorem shown_of_cutToken_eq_error (hg : g.Consistent) (h : cutToken g c rest = .error error) :
    error.shown ≠ [] ∧ error.shown <+: c :: rest := by
  rw [cutToken] at h
  split at h
  · exact shown_of_cutNumber_eq_error h
  · split at h
    · cases h
    · split at h
      · rename_i hc
        exact shown_of_cutSymbol_eq_error hg hc h
      · cases h
        exact ⟨List.cons_ne_nil c [], rest, rfl⟩

/-! ### The next token -/

/-- The text that the lexer has still to cut, behind the whitespace that comes next. -/
def ahead (lexer : Lexer) : List Char := lexer.remaining.dropWhile isWhitespace

variable {lexer behind : Lexer}

theorem next_of_cutToken_eq_ok (h : lexer.ahead = c :: rest)
    (hcut : cutToken g c rest = .ok (token, left)) :
    next g lexer = (some (.ok token), .reading left) := by
  cases lexer with
  | reading text =>
    have hskip : text.dropWhile isWhitespace = c :: rest := h
    simp only [next, hskip, hcut]
  | exhausted => cases h

theorem next_of_cutToken_eq_error (h : lexer.ahead = c :: rest)
    (hcut : cutToken g c rest = .error error) : next g lexer = (some (.error error), .exhausted) := by
  cases lexer with
  | reading text =>
    have hskip : text.dropWhile isWhitespace = c :: rest := h
    simp only [next, hskip, hcut]
  | exhausted => cases h

/-- A token or an error is what is cut off behind the whitespace. -/
theorem exists_cutToken_of_next {outcome : Except LexError Token}
    (h : next g lexer = (some outcome, behind)) : ∃ c rest, lexer.ahead = c :: rest ∧
      (cutToken g c rest).map Prod.fst = outcome := by
  cases lexer with
  | exhausted => cases h
  | reading text =>
    cases hskip : text.dropWhile isWhitespace with
    | nil =>
      simp only [next, hskip] at h
      cases h
    | cons c rest =>
      refine ⟨c, rest, hskip, ?_⟩
      cases hcut : cutToken g c rest with
      | error error =>
        simp only [next, hskip, hcut] at h
        cases h
        rfl
      | ok cut =>
        simp only [next, hskip, hcut] at h
        cases h
        rfl

/-! ### A whole run -/

/-- What a lexer makes of a text, token by token. -/
inductive Runs (g : Grammar) : List Char → LexerRun → Prop
  /-- Nothing is left but whitespace. -/
  | ended {blanks : List Char} (hblanks : ∀ c ∈ blanks, isWhitespace c = true) :
    Runs g blanks ⟨[], none, [], .exhausted⟩
  /-- An error is met behind the whitespace. -/
  | failed {blanks rest : List Char} {c : Char} {error : LexError}
    (hblanks : ∀ c ∈ blanks, isWhitespace c = true) (hc : isWhitespace c = false)
    (hcut : cutToken g c rest = .error error) :
    Runs g (blanks ++ c :: rest) ⟨[], some error, c :: rest, .exhausted⟩
  /-- A token is cut off behind the whitespace, and the run goes on behind the token. -/
  | token {blanks rest left : List Char} {c : Char} {token : Token} {run : LexerRun}
    (hblanks : ∀ c ∈ blanks, isWhitespace c = true) (hc : isWhitespace c = false)
    (hcut : cutToken g c rest = .ok (token, left)) (hrest : Runs g left run) :
    Runs g (blanks ++ c :: rest) { run with tokens := token :: run.tokens }

theorem run_of_next_error {lexer behind : Lexer} (h : next g lexer = (some (.error error), behind)) :
    run g lexer = ⟨[], some error, lexer.remaining.dropWhile isWhitespace, behind⟩ := by
  rw [run]
  split <;> simp_all

/-- The run of a lexer is what it makes of the text. -/
theorem runs_run (g : Grammar) (text : List Char) : Runs g text (run g (.reading text)) := by
  induction hlength : text.length using Nat.strongRecOn generalizing text with
  | ind length ih =>
    subst hlength
    have hsplit : text.takeWhile isWhitespace ++ text.dropWhile isWhitespace = text :=
      List.takeWhile_append_dropWhile
    have hblanks : ∀ c ∈ text.takeWhile isWhitespace, isWhitespace c = true :=
      fun c hc ↦ List.mem_takeWhile_imp hc
    cases hskip : text.dropWhile isWhitespace with
    | nil =>
      have hnext : next g (.reading text) = (none, .exhausted) := by simp only [next, hskip]
      rw [run_of_next_none hnext]
      rw [hskip, List.append_nil] at hsplit
      exact .ended (hsplit ▸ hblanks)
    | cons c rest =>
      have hc : isWhitespace c = false := by
        have hhead := List.head?_dropWhile_not isWhitespace text
        rw [hskip] at hhead
        simpa using hhead
      cases hcut : cutToken g c rest with
      | error error =>
        have hnext : next g (.reading text) = (some (.error error), .exhausted) := by
          simp only [next, hskip, hcut]
        rw [run_of_next_error hnext, remaining, hskip]
        have hrun := Runs.failed hblanks hc hcut
        rwa [← hskip, hsplit, hskip] at hrun
      | ok cut =>
        have hnext : next g (.reading text) = (some (.ok cut.1), .reading cut.2) := by
          simp only [next, hskip, hcut]
        have hshorter : cut.2.length < text.length := remaining_lt_of_next hnext
        have hrun := Runs.token hblanks hc hcut (ih _ hshorter cut.2 rfl)
        rw [run_of_next_ok hnext]
        rwa [← hskip, hsplit] at hrun

/-- A text is cut in one way only. -/
theorem Runs.run_eq {text : List Char} {outcome : LexerRun} (h : Runs g text outcome) :
    run g (.reading text) = outcome := by
  induction h with
  | @ended blanks hblanks =>
    refine run_of_next_none ?_
    simp only [next, dropWhile_blanks hblanks]
  | @failed blanks rest c error hblanks hc hcut =>
    have hskip := dropWhile_blanks_append hblanks hc rest
    have hnext : next g (.reading (blanks ++ c :: rest)) = (some (.error error), .exhausted) := by
      simp only [next, hskip, hcut]
    rw [run_of_next_error hnext, remaining, hskip]
  | @token blanks rest left c token outcome hblanks hc hcut hrest ih =>
    have hnext : next g (.reading (blanks ++ c :: rest)) = (some (.ok token), .reading left) := by
      simp only [next, dropWhile_blanks_append hblanks hc rest, hcut]
    rw [run_of_next_ok hnext, ih]

/-! ### The tokens divide the text -/

/-- Whether a text is made of the tokens, in their order and with nothing but whitespace before each
of them, and then of `rest`. -/
inductive Divided : List Token → List Char → List Char → Prop
  | nil (rest : List Char) : Divided [] rest rest
  | cons {token : Token} {tokens : List Token} {blanks rest text : List Char}
    (hblanks : ∀ c ∈ blanks, isWhitespace c = true) (hne : token.text.toList ≠ [])
    (hrest : Divided tokens rest text) :
    Divided (token :: tokens) rest (blanks ++ (token.text.toList ++ text))

/-- Every token is a piece of the text. -/
theorem Divided.isInfix {tokens : List Token} {rest text : List Char}
    (h : Divided tokens rest text) : ∀ token ∈ tokens, token.text.toList <:+: text := by
  induction h with
  | nil => exact fun _ htoken ↦ by cases htoken
  | @cons token tokens blanks rest text hblanks hne hrest ih =>
    intro other hother
    rcases List.mem_cons.mp hother with rfl | hother
    · exact ⟨blanks, text, by rw [List.append_assoc]⟩
    · obtain ⟨before, behind, htext⟩ := ih other hother
      refine ⟨blanks ++ (token.text.toList ++ before), behind, ?_⟩
      rw [← htext]
      simp only [List.append_assoc]

/-- Whether a run divides the text: into its tokens and whitespace before each of them, and, behind
the last token, into whitespace and what is left where the run ends. That is nothing, or it is where
an error is met that shows a nonempty piece of it. -/
structure Divides (text : List Char) (run : LexerRun) : Prop where
  divided : ∃ blanks, (∀ c ∈ blanks, isWhitespace c = true) ∧
    Divided run.tokens (blanks ++ run.rest) text
  ended : run.failure = none → run.rest = []
  failed : ∀ error ∈ run.failure, error.shown ≠ [] ∧ error.shown <+: run.rest ∧
    ∀ c ∈ run.rest.head?, isWhitespace c = false

theorem Runs.divides {text : List Char} {run : LexerRun} (hg : g.Consistent) (h : Runs g text run) :
    Divides text run := by
  induction h with
  | @ended blanks hblanks =>
    exact {
      divided := ⟨blanks, hblanks, by rw [List.append_nil]; exact .nil blanks⟩
      ended := fun _ ↦ rfl
      failed := fun _ herror ↦ by cases herror }
  | @failed blanks rest c error hblanks hc hcut =>
    obtain ⟨hne, hshown⟩ := shown_of_cutToken_eq_error hg hcut
    refine ⟨⟨blanks, hblanks, .nil _⟩, (fun hnone ↦ by cases hnone), fun other hother ↦ ?_⟩
    cases hother
    refine ⟨hne, hshown, fun first hfirst ↦ ?_⟩
    cases hfirst
    exact hc
  | @token blanks rest left c token run hblanks hc hcut hrest ih =>
    obtain ⟨others, hothers, hdivided⟩ := ih.divided
    have htext := (cuts_of_cutToken_eq_ok hcut).append_eq
    have hne : token.text.toList ≠ [] := by
      intro hnil
      have hshorter := length_lt_of_cutToken hcut
      rw [← htext, hnil, List.nil_append] at hshorter
      exact Nat.lt_irrefl _ hshorter
    refine ⟨⟨others, hothers, ?_⟩, ih.ended, ih.failed⟩
    rw [← htext]
    exact .cons hblanks hne hdivided

/-- Behind a run without an error, nothing is left. -/
theorem Runs.eq_of_failure_eq_none {text : List Char} {run : LexerRun} (h : Runs g text run)
    (hnone : run.failure = none) : run = ⟨run.tokens, none, [], .exhausted⟩ := by
  induction h with
  | ended => rfl
  | failed => cases hnone
  | token hblanks hc hcut hrest ih =>
    rename_i run
    have hothers : run = ⟨run.tokens, none, [], .exhausted⟩ := ih hnone
    rw [hothers]

end Lexer

end Formulary
