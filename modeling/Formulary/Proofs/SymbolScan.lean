import Formulary.Proofs.Lexing
import Formulary.Proofs.LongestMatch

/-!
# The longest symbol

Symbols are found by a scan that looks at a bounded piece of the text, the leading characters of
symbols up to the length of the longest symbol. A symbol may have beginnings that are no symbols.

Main statement: the scan finds the longest of all symbols that the text starts with, and where there
is none, the error shows the characters that were scanned. These are the leading characters of
symbols, cut short behind as many bytes as the longest symbol has (`Text.Shortened`). An operator
between whitespace is always found.
-/

set_option autoImplicit false
set_option relaxedAutoImplicit false

namespace Formulary

open Text

open scoped Computability

/-- Whether a text begins with a sign and a digit. -/
def Numeral.BeginsSigned (text : List Char) : Prop :=
  ∃ sign digit rest, text = sign :: digit :: rest ∧ isSign sign = true ∧ digit.isDigit = true

/-- What remains of a text that is cut short behind `room` bytes: all of it if it has fewer bytes, and
otherwise its shortest beginning that has at least as many. -/
inductive Text.Shortened (room : Nat) (text : List Char) : List Char → Prop
  | whole (hfew : String.utf8Len text < room) : Shortened room text text
  | cut {shown : List Char} (hbegins : shown <+: text) (hmany : room ≤ String.utf8Len shown)
    (hshortest : ∀ other, other <+: text → room ≤ String.utf8Len other →
      shown.length ≤ other.length) : Shortened room text shown

theorem Text.shortened_zero (text : List Char) : Shortened 0 text [] :=
  .cut List.nil_prefix (Nat.zero_le _) fun _ _ _ ↦ Nat.zero_le _

theorem Text.shortened_nil (room : Nat) : Shortened room [] [] := by
  cases room with
  | zero => exact shortened_zero []
  | succ room => exact .whole (Nat.succ_pos room)

/-- Assumes: there is room. The first character remains, and behind it what there is room for. -/
theorem Text.Shortened.cons {room : Nat} {c : Char} {text shown : List Char}
    (h : Shortened (room - c.utf8Size) text shown) (hroom : 0 < room) :
    Shortened room (c :: text) (c :: shown) := by
  cases h with
  | whole hfew =>
    refine .whole ?_
    rw [String.utf8Len]
    omega
  | cut hbegins hmany hshortest =>
    refine .cut ((List.prefix_cons_inj c).mpr hbegins) ?_ fun other hother hlong ↦ ?_
    · rw [String.utf8Len]
      omega
    · cases other with
      | nil => exact absurd hlong (Nat.not_le_of_lt hroom)
      | cons first other =>
        obtain ⟨rfl, hbehind⟩ := List.cons_prefix_cons.mp hother
        rw [String.utf8Len] at hlong
        exact Nat.succ_le_succ (hshortest other hbehind (by omega))

namespace Grammar

/-- The texts that are symbols of the grammar. -/
def symbolTexts (g : Grammar) : Language Char :=
  { text | (g.symbol? (String.ofList text)).isSome = true }

/-- Whether a character occurs in a symbol of the grammar. -/
def OccursInSymbol (g : Grammar) (c : Char) : Prop := ∃ text ∈ g.symbolTexts, c ∈ text

/-- The texts of characters that occur in symbols of the grammar. -/
def symbolRuns (g : Grammar) : Language Char := { text | ∀ c ∈ text, g.OccursInSymbol c }

variable {g : Grammar} {c : Char} {text : List Char}

theorem mem_symbolTexts : text ∈ g.symbolTexts ↔
    ∃ symbol, g.symbol? (String.ofList text) = some symbol :=
  Option.isSome_iff_exists

theorem Consistent.isSymbolChar_iff_occursInSymbol (hg : g.Consistent) :
    g.isSymbolChar c = true ↔ g.OccursInSymbol c := by
  rw [hg.isSymbolChar_iff]
  constructor
  · rintro ⟨text, symbol, hsymbol, hc⟩
    refine ⟨text.toList, mem_symbolTexts.mpr ⟨symbol, ?_⟩, hc⟩
    rw [String.ofList_toList, hsymbol]
  · rintro ⟨text, htext, hc⟩
    obtain ⟨symbol, hsymbol⟩ := mem_symbolTexts.mp htext
    exact ⟨String.ofList text, symbol, hsymbol, by rwa [String.toList_ofList]⟩

theorem Consistent.kstar_isSymbolChar (hg : g.Consistent) :
    (oneOf g.isSymbolChar)∗ = g.symbolRuns := by
  ext text
  rw [mem_kstar_oneOf]
  exact forall₂_congr fun c _ ↦ hg.isSymbolChar_iff_occursInSymbol

theorem Consistent.isOperatorChar_of_occursInSymbol (hg : g.Consistent) (h : g.OccursInSymbol c) :
    isOperatorChar c = true := by
  obtain ⟨text, symbol, hsymbol, hc⟩ :=
    (hg.isSymbolChar_iff c).mp (hg.isSymbolChar_iff_occursInSymbol.mpr h)
  exact isOperatorChar_of_isOperatorText (hg.isOperatorText text symbol hsymbol) c hc

theorem Consistent.ne_nil_of_mem_symbolTexts (hg : g.Consistent) (h : text ∈ g.symbolTexts) :
    text ≠ [] := by
  obtain ⟨symbol, hsymbol⟩ := mem_symbolTexts.mp h
  rw [← String.toList_ofList (l := text)]
  exact toList_ne_nil_of_isOperatorText (hg.isOperatorText _ symbol hsymbol)

end Grammar

namespace Lexer

variable {g : Grammar} {c : Char} {rest text : List Char}

/-! ### What a scan shows -/

theorem symbolWindow_of_isSymbolChar {room : Nat} (hc : g.isSymbolChar c = true)
    (hroom : 0 < room) :
    symbolWindow g room (c :: rest) = c :: symbolWindow g (room - c.utf8Size) rest := by
  rw [symbolWindow, if_pos (by simp [hc, hroom])]

/-- The scan shows the leading characters of symbols, cut short behind as many bytes as there is room
for. -/
theorem shortened_symbolWindow (g : Grammar) (room : Nat) (text : List Char) :
    Shortened room (text.takeWhile g.isSymbolChar) (symbolWindow g room text) := by
  induction text generalizing room with
  | nil => exact shortened_nil room
  | cons c rest ih =>
    by_cases hc : g.isSymbolChar c = true
    · cases room with
      | zero => exact shortened_zero _
      | succ room =>
        rw [List.takeWhile_cons_of_pos hc, symbolWindow_of_isSymbolChar hc (Nat.succ_pos room)]
        exact (ih _).cons (Nat.succ_pos room)
    · have hnothing : symbolWindow g room (c :: rest) = [] := by
        rw [symbolWindow, if_neg (by simp [hc])]
      rw [List.takeWhile_cons_of_neg hc, hnothing]
      exact shortened_nil room

/-! ### The longest symbol of all -/

/-- No symbol that a scan passes is longer than the one that it finds. -/
theorem symbolKind?_of_longer {window : List Char} {bound longer : Nat}
    (hlonger : ∀ kind length, longestSymbol g window bound = some (kind, length) → length < longer)
    (hpos : 0 < longer) (hle : longer ≤ bound) :
    g.symbolKind? (String.ofList (window.take longer)) = none := by
  induction bound with
  | zero => exact absurd hle (Nat.not_le_of_lt hpos)
  | succ bound ih =>
    rw [longestSymbol] at hlonger
    cases hkind : g.symbolKind? (String.ofList (window.take (bound + 1))) with
    | some kind =>
      simp only [hkind] at hlonger
      exact absurd (hlonger kind _ rfl) (Nat.not_lt_of_le hle)
    | none =>
      simp only [hkind] at hlonger
      rcases Nat.le_succ_iff.mp hle with hle | rfl
      · exact ih hlonger hle
      · exact hkind

/-- A symbol in front of a text is no longer than the one that is found. -/
theorem length_le_of_mem_symbolTexts (hg : g.Consistent) {found : Nat}
    (hfound : ∀ kind length, longestSymbol g text text.length = some (kind, length) →
      length ≤ found) {other : List Char} (hother : other ∈ g.symbolTexts)
    (hbegins : other <+: text) : other.length ≤ found := by
  by_contra hlonger
  obtain ⟨symbol, hsymbol⟩ := Grammar.mem_symbolTexts.mp hother
  have hnone := symbolKind?_of_longer (fun kind length h ↦
    Nat.lt_of_le_of_lt (hfound kind length h) (Nat.lt_of_not_le hlonger))
    (List.length_pos_iff.mpr (hg.ne_nil_of_mem_symbolTexts hother)) hbegins.length_le
  rw [← List.prefix_iff_eq_take.mp hbegins, Grammar.symbolKind?, hsymbol] at hnone
  cases hnone

/-- What is found is the longest symbol in front of the text. -/
theorem isLongest_of_longestSymbol (hg : g.Consistent) {kind : TokenKind} {length : Nat}
    (h : longestSymbol g text text.length = some (kind, length)) :
    IsLongest g.symbolTexts text (text.take length) ∧
      g.symbolKind? (String.ofList (text.take length)) = some kind := by
  obtain ⟨hle, hkind⟩ := symbolKind?_of_longestSymbol h
  obtain ⟨symbol, hsymbol, -⟩ := Option.map_eq_some_iff.mp hkind
  have hlength (other : List Char) (hother : other ∈ g.symbolTexts) (hbegins : other <+: text) :
      other.length ≤ (text.take length).length := by
    rw [List.length_take_of_le hle]
    refine length_le_of_mem_symbolTexts hg (fun other found hfound ↦ ?_) hother hbegins
    rw [h] at hfound
    cases hfound
    exact Nat.le_refl length
  exact ⟨{
    isPrefix := List.take_prefix length text
    mem := Grammar.mem_symbolTexts.mpr ⟨symbol, hsymbol⟩
    length_le := hlength }, hkind⟩

/-- If nothing is found, no symbol is in front of the text. -/
theorem longestSymbol_eq_none_iff (hg : g.Consistent) :
    longestSymbol g text text.length = none ↔ ¬ ∃ symbol ∈ g.symbolTexts, symbol <+: text := by
  constructor
  · rintro hnone ⟨symbol, hmem, hbegins⟩
    have hle : symbol.length ≤ 0 := length_le_of_mem_symbolTexts hg
      (fun kind length h ↦ by rw [hnone] at h; cases h) hmem hbegins
    exact hg.ne_nil_of_mem_symbolTexts hmem (List.eq_nil_of_length_eq_zero (Nat.le_zero.mp hle))
  · intro h
    refine Option.eq_none_iff_forall_ne_some.mpr fun ⟨kind, length⟩ hfound ↦ h ?_
    have hlongest := (isLongest_of_longestSymbol hg hfound).1
    exact ⟨_, hlongest.mem, hlongest.isPrefix⟩

/-! ### The next symbol -/

/-- Where a symbol may start and no sign with a digit stands, no numeral starts. -/
theorem startsNumber_of_occursInSymbol (hg : g.Consistent) (hc : g.OccursInSymbol c)
    (hsigned : ¬ Numeral.BeginsSigned (c :: rest)) : startsNumber c rest = false := by
  have hdigit := Grammar.isDigit_of_isOperatorChar (hg.isOperatorChar_of_occursInSymbol hc)
  rw [startsNumber, hdigit, Bool.false_or]
  refine Bool.eq_false_iff.mpr fun hboth ↦ hsigned ?_
  obtain ⟨hsign, hnext⟩ := (Bool.and_eq_true _ _).mp hboth
  cases rest with
  | nil => cases hnext
  | cons digit rest => exact ⟨c, digit, rest, rfl, hsign, hnext⟩

section Next

variable {lexer : Lexer} (hg : g.Consistent) (hahead : lexer.ahead = c :: rest)
  (hc : g.OccursInSymbol c) (hsigned : ¬ Numeral.BeginsSigned (c :: rest))

include hg hahead hc hsigned

theorem next_of_longestSymbol {kind : TokenKind} {length : Nat}
    (h : longestSymbol g (c :: rest) (c :: rest).length = some (kind, length)) :
    next g lexer = (some (.ok ⟨kind, String.ofList ((c :: rest).take length)⟩),
      .reading ((c :: rest).drop length)) := by
  refine next_of_cutToken_eq_ok hahead ?_
  rw [cutToken_eq_of_punctuation hg (startsNumber_of_occursInSymbol hg hc hsigned)
    (Grammar.isNameStart_of_isOperatorChar (hg.isOperatorChar_of_occursInSymbol hc)), h]

theorem next_of_longestSymbol_eq_none
    (h : longestSymbol g (c :: rest) (c :: rest).length = none) :
    next g lexer = (some (.error (.invalidToken (String.ofList
      (symbolWindow g g.maxSymbolLength (c :: rest))))), .exhausted) := by
  refine next_of_cutToken_eq_error hahead ?_
  rw [cutToken_eq_of_punctuation hg (startsNumber_of_occursInSymbol hg hc hsigned)
    (Grammar.isNameStart_of_isOperatorChar (hg.isOperatorChar_of_occursInSymbol hc)), h,
    symbolError, if_pos (hg.isSymbolChar_iff_occursInSymbol.mpr hc)]

end Next

end Lexer

namespace Grammar

/-- Where a character of a symbol stands in front of the lexer and no sign with a digit, the longest
symbol that the text starts with is the next token. If there is none, the error shows the leading
characters of symbols, cut short behind as many bytes as the longest symbol has. An operator between
whitespace is a token. -/
theorem Reachable.scans_longest_symbol {g : Grammar} (hg : g.Reachable) :
    (∀ lexer c rest, Lexer.ahead lexer = c :: rest → g.OccursInSymbol c →
      ¬ Numeral.BeginsSigned (c :: rest) →
      ((∃ symbol ∈ g.symbolTexts, symbol <+: c :: rest) →
        ∃ symbol kind left, IsLongest g.symbolTexts (c :: rest) symbol ∧
          g.symbolKind? (String.ofList symbol) = some kind ∧ c :: rest = symbol ++ left ∧
          lexer.next g = (some (.ok ⟨kind, String.ofList symbol⟩), .reading left)) ∧
      ((¬ ∃ symbol ∈ g.symbolTexts, symbol <+: c :: rest) →
        ∃ run shown, IsLongest g.symbolRuns (c :: rest) run ∧
          Shortened g.maxSymbolLength run shown ∧
          lexer.next g = (some (.error (.invalidToken (String.ofList shown))), .exhausted))) ∧
    ∀ name o blanks behind, g.operator? name = some o → (∀ c ∈ blanks, isWhitespace c = true) →
      Apart behind → Lexer.next g (.reading (blanks ++ name.toList ++ behind)) =
        (some (.ok ⟨.operator, name⟩), .reading behind) := by
  refine ⟨fun lexer c rest hahead hc hsigned ↦ ⟨fun hsome ↦ ?_, fun hnone ↦ ?_⟩,
    fun name o blanks behind ho hblanks hapart ↦ ?_⟩
  · cases hfound : Lexer.longestSymbol g (c :: rest) (c :: rest).length with
    | none => exact ((Lexer.longestSymbol_eq_none_iff hg.consistent).mp hfound hsome).elim
    | some found =>
      obtain ⟨kind, length⟩ := found
      obtain ⟨hlongest, hkind⟩ := Lexer.isLongest_of_longestSymbol hg.consistent hfound
      exact ⟨_, kind, _, hlongest, hkind, (List.take_append_drop length _).symm,
        Lexer.next_of_longestSymbol hg.consistent hahead hc hsigned hfound⟩
  · have hfound := (Lexer.longestSymbol_eq_none_iff hg.consistent).mpr hnone
    have hrun := Cutting.munches_many g.isSymbolChar (c :: rest)
    rw [hg.consistent.kstar_isSymbolChar] at hrun
    exact ⟨_, _, hrun, Lexer.shortened_symbolWindow g g.maxSymbolLength (c :: rest),
      Lexer.next_of_longestSymbol_eq_none hg.consistent hahead hc hsigned hfound⟩
  · exact Lexer.next_of_stands (hg.consistent.stands_operator ho) hblanks hapart

/-- An operator of three arrows. -/
def tripledArrow : Operator := ⟨"→→→", 3, .left, (· * ·)⟩

/-- The standard grammar with that operator. -/
def arrows : Grammar := standard.insertOperator tripledArrow

/-- Neither one arrow nor two are a symbol. The scan finds three, and where a minus sign stands
between them, it goes on behind the ninth byte. -/
theorem scans_longest_symbol_arrows : standard.registerOperator tripledArrow = .ok arrows ∧
    IsLongest arrows.symbolTexts "→→→→2".toList "→→→".toList ∧
    Lexer.next arrows (.ofText " →→→→2") =
      (some (.ok ⟨.operator, "→→→"⟩), .reading "→2".toList) ∧
    Lexer.next arrows (.ofText "→→-→→2") =
      (some (.error (.invalidToken "→→-→")), .exhausted) ∧
    ∃ run, IsLongest arrows.symbolRuns "→→-→→2".toList run ∧
      Shortened arrows.maxSymbolLength run "→→-→".toList := by
  have hregister : standard.registerOperator tripledArrow = .ok arrows := if_pos (by decide +kernel)
  have hreachable : arrows.Reachable := .registerOperator .standard hregister
  have harrow : arrows.OccursInSymbol '→' :=
    hreachable.consistent.isSymbolChar_iff_occursInSymbol.mp (by decide +kernel)
  have hunsigned (rest : List Char) : ¬ Numeral.BeginsSigned ('→' :: rest) := by
    rintro ⟨_, digit, behind, htext, hsign, -⟩
    cases htext
    cases hsign
  have hfound : Lexer.next arrows (.ofText " →→→→2") =
      (some (.ok ⟨.operator, "→→→"⟩), .reading "→2".toList) := by decide +kernel
  have hmissed : Lexer.next arrows (.ofText "→→-→→2") =
      (some (.error (.invalidToken "→→-→")), .exhausted) := by decide +kernel
  have hscan := (Reachable.scans_longest_symbol hreachable).1
  refine ⟨hregister, ?_, hfound, hmissed, ?_⟩
  · obtain ⟨symbol, kind, left, hlongest, -, -, hnext⟩ :=
      (hscan (.ofText " →→→→2") '→' "→→→2".toList (by decide) harrow (hunsigned _)).1
        ⟨"→→→".toList, mem_symbolTexts.mpr ⟨.operator tripledArrow, rfl⟩, by decide⟩
    have hsame := hnext.symm.trans hfound
    have htext : symbol = "→→→".toList := by
      simpa using congrArg (fun token ↦ token.text.toList)
        (Except.ok.inj (Option.some.inj (Prod.ext_iff.mp hsame).1))
    rwa [htext] at hlongest
  · obtain ⟨run, shown, hrun, hshortened, hnext⟩ :=
      (hscan (.ofText "→→-→→2") '→' "→-→→2".toList (by decide) harrow (hunsigned _)).2
        ((Lexer.longestSymbol_eq_none_iff hreachable.consistent).mp (by decide +kernel))
    have hsame := hnext.symm.trans hmissed
    have htext : shown = "→→-→".toList := by
      simpa using congrArg String.toList (LexError.invalidToken.inj
        (Except.error.inj (Option.some.inj (Prod.ext_iff.mp hsame).1)))
    rw [htext] at hshortened
    exact ⟨run, hrun, hshortened⟩

end Grammar

end Formulary
