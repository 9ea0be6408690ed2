import Formulary.Proofs.Lookahead

/-!
# Texts side by side

No token runs on where the text goes on with whitespace. So a text without an error is cut into the
same tokens when another text is put behind it that starts with whitespace, and the run goes on with
the tokens of that text (`Lexer.Runs.append`).

Main statement: a text that is made of pieces with whitespace between them (`Pieces`) is cut into
the tokens of the pieces, one piece after the other (`Lexer.run_of_pieces`). The pieces may be
written in any way, with or without whitespace between their tokens.
-/

set_option autoImplicit false
set_option relaxedAutoImplicit false

namespace Formulary

open Text

namespace Text

/-- Text in front of whitespace has the first character that it had, or it is empty. -/
theorem Cutting.replaces_append {more : List Char} (hapart : Apart more) (left : List Char) :
    Replaces (left ++ more) left := by
  cases left with
  | nil => exact Or.inr hapart
  | cons c left => exact Or.inl rfl

theorem not_isDigit_of_apart {text : List Char} (h : Apart text) :
    text.head?.any Char.isDigit = false := by
  cases text with
  | nil => rfl
  | cons c text =>
    have hletter := isAlphanum_of_isWhitespace (h c rfl)
    rw [Char.isAlphanum, Bool.or_eq_false_iff] at hletter
    exact hletter.2

end Text

namespace Lexer

variable {g : Grammar} {c : Char} {rest left more : List Char} {token : Token}

/-! ### One token in front of whitespace -/

theorem startsNumber_append (hapart : Apart more) :
    startsNumber c (rest ++ more) = startsNumber c rest := by
  cases rest with
  | nil =>
    rw [List.nil_append, startsNumber, startsNumber, not_isDigit_of_apart hapart]
    rfl
  | cons other rest => rfl

theorem cutNumber_append (hapart : Apart more) (h : cutNumber (c :: rest) = .ok (token, left)) :
    cutNumber (c :: (rest ++ more)) = .ok (token, left ++ more) := by
  have hdivides := Numeral.divides_cut (c :: rest)
  rw [cutNumber] at h
  split at h
  · cases h
  · rename_i hnone
    cases h
    have hreplaces := Cutting.replaces_append hapart (Numeral.cut (c :: rest)).2
    have hcut := Numeral.stable_cut (c :: rest) _ hreplaces
    rw [← List.append_assoc, hdivides] at hcut
    refine cutNumber_of_cut hcut (hreplaces.head (fun _ ↦ isAlphanum_of_isWhitespace) ?_)
    intro other hother
    rw [Option.mem_def.mp hother] at hnone
    simpa [Option.filter] using hnone

theorem cutIdentifier_append (hapart : Apart more)
    (h : cutIdentifier (c :: rest) = .ok (token, left)) :
    cutIdentifier (c :: (rest ++ more)) = .ok (token, left ++ more) := by
  have hspace : ∀ c, isWhitespace c = true → Grammar.isNameChar c = false := fun _ ↦
    Grammar.isNameChar_of_isWhitespace
  have hdivides := Cutting.divides_many Grammar.isNameChar (c :: rest)
  have hreplaces := Cutting.replaces_append hapart
    (Cutting.many Grammar.isNameChar (c :: rest)).2
  have hcut := Cutting.stable_many hspace (c :: rest) _ hreplaces
  rw [← List.append_assoc, hdivides] at hcut
  cases h
  rw [cutIdentifier, ← List.cons_append, hcut]

/-- Whitespace in front of a text adds no symbol to those in front of what is before it. -/
theorem longestSymbol_append (hg : g.Consistent) (hapart : Apart more) (text : List Char) :
    longestSymbol g (text ++ more) (text ++ more).length = longestSymbol g text text.length := by
  have hle : text.length ≤ (text ++ more).length := by
    rw [List.length_append]
    exact Nat.le_add_right _ _
  have hnone : ∀ length, text.length < length → length ≤ (text ++ more).length →
      g.symbolKind? (String.ofList ((text ++ more).take length)) = none := by
    intro length hlonger hlength
    refine Option.eq_none_iff_forall_ne_some.mpr fun kind hkind ↦ ?_
    obtain ⟨symbol, hsymbol, -⟩ := Option.map_eq_some_iff.mp hkind
    cases more with
    | nil =>
      rw [List.append_nil] at hlength
      omega
    | cons space more =>
      have hmem : space ∈ (text ++ space :: more).take length := by
        obtain ⟨extra, rfl⟩ := Nat.exists_eq_add_of_lt hlonger
        rw [Nat.add_assoc, List.take_length_add_append, List.take_succ_cons]
        exact List.mem_append_right text List.mem_cons_self
      have hknown : g.isSymbolChar space = true := (hg.isSymbolChar_iff space).mpr
        ⟨_, symbol, hsymbol, by rwa [String.toList_ofList]⟩
      rw [hg.isSymbolChar_of_isWhitespace (hapart space rfl)] at hknown
      cases hknown
  calc longestSymbol g (text ++ more) (text ++ more).length
      = longestSymbol g (text ++ more) text.length := longestSymbol_of_le hle hnone
    _ = longestSymbol g text text.length :=
      longestSymbol_congr fun length hlength ↦ by rw [List.take_append_of_le_length hlength]

/-- A token is cut off again when whitespace follows behind the text. -/
theorem cutToken_append (hg : g.Consistent) (hapart : Apart more)
    (h : cutToken g c rest = .ok (token, left)) :
    cutToken g c (rest ++ more) = .ok (token, left ++ more) := by
  by_cases hnumber : startsNumber c rest = true
  · rw [cutToken, if_pos hnumber] at h
    rw [cutToken, startsNumber_append hapart, if_pos hnumber]
    exact cutNumber_append hapart h
  · by_cases hname : Grammar.isNameStart c = true
    · rw [cutToken, if_neg hnumber, if_pos hname] at h
      rw [cutToken, startsNumber_append hapart, if_neg hnumber, if_pos hname]
      exact cutIdentifier_append hapart h
    · have hnumber : startsNumber c rest = false := Bool.eq_false_iff.mpr hnumber
      have hname : Grammar.isNameStart c = false := Bool.eq_false_iff.mpr hname
      rw [cutToken_eq_of_punctuation hg hnumber hname] at h
      rw [cutToken_eq_of_punctuation hg ((startsNumber_append hapart).trans hnumber) hname,
        ← List.cons_append, longestSymbol_append hg hapart]
      cases hlongest : longestSymbol g (c :: rest) (c :: rest).length with
      | none =>
        rw [hlongest] at h
        cases h
      | some found =>
        rw [hlongest] at h
        cases h
        have hle := (symbolKind?_of_longestSymbol hlongest).1
        simp only [List.take_append_of_le_length hle, List.drop_append_of_le_length hle]

/-! ### A run in front of another -/

/-- A run over a text with more whitespace before it. -/
theorem Runs.blanks {blanks text : List Char} {outcome : LexerRun}
    (hblanks : ∀ c ∈ blanks, isWhitespace c = true) (h : Runs g text outcome) :
    Runs g (blanks ++ text) outcome := by
  have hboth {others : List Char} (hothers : ∀ c ∈ others, isWhitespace c = true) :
      ∀ c ∈ blanks ++ others, isWhitespace c = true :=
    List.forall_mem_append.mpr ⟨hblanks, hothers⟩
  cases h with
  | ended hothers => exact .ended (hboth hothers)
  | failed hothers hc hcut =>
    rw [← List.append_assoc]
    exact .failed (hboth hothers) hc hcut
  | token hothers hc hcut hrest =>
    rw [← List.append_assoc]
    exact .token (hboth hothers) hc hcut hrest

/-- Assumes: a run without an error, and a text that starts with whitespace. The run goes on over
that text. -/
theorem Runs.append (hg : g.Consistent) {text : List Char} {outcome next : LexerRun}
    (h : Runs g text outcome) (hnone : outcome.failure = none) (hapart : Apart more)
    (hnext : Runs g more next) :
    Runs g (text ++ more) { next with tokens := outcome.tokens ++ next.tokens } := by
  induction h with
  | ended hblanks => exact hnext.blanks hblanks
  | failed => cases hnone
  | token hblanks hc hcut hrest ih =>
    rw [List.append_assoc, List.cons_append]
    exact .token hblanks hc (cutToken_append hg hapart hcut) (ih hnone)

end Lexer

/-! ### Pieces -/

/-- Whether a text consists of the given pieces with whitespace between them. There may be
whitespace before the first piece and behind the last as well. -/
inductive Pieces : List String → List Char → Prop
  | blank {blanks : List Char} (hblanks : ∀ c ∈ blanks, isWhitespace c = true) : Pieces [] blanks
  | piece {piece : String} {pieces : List String} {blanks rest : List Char}
    (hblanks : ∀ c ∈ blanks, isWhitespace c = true) (hapart : Apart rest)
    (hrest : Pieces pieces rest) : Pieces (piece :: pieces) (blanks ++ (piece.toList ++ rest))

/-- The text with a blank before each piece. -/
theorem pieces_flatMap (pieces : List String) :
    Pieces pieces (pieces.flatMap fun piece ↦ ' ' :: piece.toList) := by
  induction pieces with
  | nil => exact .blank fun c hc ↦ by cases hc
  | cons piece pieces ih =>
    have hblank : ∀ c ∈ [' '], isWhitespace c = true := List.forall_mem_singleton.mpr rfl
    have hapart : Apart (pieces.flatMap fun piece ↦ ' ' :: piece.toList) := by
      intro c hc
      cases pieces with
      | nil => cases hc
      | cons next pieces =>
        cases hc
        exact hblank ' ' List.mem_cons_self
    exact .piece hblank hapart ih

namespace Lexer

variable {g : Grammar}

/-- Assumes: pieces that are cut into tokens without an error. A text that consists of them with
whitespace between them is cut into their tokens. -/
theorem run_of_pieces (hg : g.Consistent) {pieces : List String} {text : List Char}
    (h : Pieces pieces text) (hpieces : ∀ piece ∈ pieces, (run g (.ofText piece)).failure = none) :
    run g (.reading text) =
      ⟨pieces.flatMap fun piece ↦ (run g (.ofText piece)).tokens, none, [], .exhausted⟩ := by
  refine Runs.run_eq ?_
  induction h with
  | blank hblanks => exact .ended hblanks
  | @piece piece pieces blanks rest hblanks hapart hrest ih =>
    obtain ⟨hpiece, hothers⟩ := List.forall_mem_cons.mp hpieces
    have hruns : Runs g piece.toList (run g (.ofText piece)) := runs_run g piece.toList
    exact (hruns.append hg hpiece hapart (ih hothers)).blanks hblanks

/-- A token that stands for itself is all that its text is cut into. -/
theorem run_of_stands {token : Token} (h : token.Stands g) :
    run g (.ofText token.text) = ⟨[token], none, [], .exhausted⟩ := by
  have hspaced : Spaced [token] ([] ++ token.text.toList ++ []) :=
    .token (List.forall_mem_nil _) apart_nil (.blank (List.forall_mem_nil _))
  rw [List.nil_append, List.append_nil] at hspaced
  exact run_of_spaced hspaced (List.forall_mem_singleton.mpr h)

end Lexer

end Formulary
