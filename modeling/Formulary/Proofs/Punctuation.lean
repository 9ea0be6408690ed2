import Formulary.Proofs.Balance
import Formulary.Proofs.Juxtaposition
import Formulary.Proofs.Vocabulary

/-!
# Parentheses and commas in a text

Numerals and identifiers have no parentheses and commas in them (`Numeral.takesOnly_cut`,
`Lexer.Cuts.eq_of_punctuation`), and no operator may take the place of one of these symbols. But a
longer symbol may have them in it, and where it stands in a text it is the longest symbol.

Main statement: in a text without an error, each parenthesis and each comma is a token of its own
exactly if there is none in the operators of the text. So this is true of all texts exactly if no
operator is registered with a parenthesis or comma in its symbol.
-/

set_option autoImplicit false
set_option relaxedAutoImplicit false

namespace Formulary

open Text

/-- The kind of token that a parenthesis or comma is when it stands alone. -/
def punctuationKind? (c : Char) : Option TokenKind :=
  if c = '(' then some .openParen
  else if c = ')' then some .closeParen
  else if c = ',' then some .comma
  else none

/-- Whether there is a parenthesis or comma in the text. -/
def HoldsPunctuation (text : String) : Prop := ∃ c ∈ text.toList, (punctuationKind? c).isSome = true

instance (text : String) : Decidable (HoldsPunctuation text) :=
  decidable_of_iff ((text.toList.any fun c ↦ (punctuationKind? c).isSome) = true) List.any_eq_true

theorem punctuationKind?_eq_some_iff {c : Char} {kind : TokenKind} :
    punctuationKind? c = some kind ↔ c = '(' ∧ kind = .openParen ∨ c = ')' ∧ kind = .closeParen ∨
      c = ',' ∧ kind = .comma := by
  unfold punctuationKind?
  split
  · rename_i hc
    subst hc
    simp [eq_comm]
  · split
    · rename_i hc
      subst hc
      simp [eq_comm]
    · split
      · rename_i hc
        subst hc
        simp [eq_comm]
      · simp_all

section Classes

variable {c : Char} {kind : TokenKind} (h : punctuationKind? c = some kind)

include h

theorem ne_operator_of_punctuationKind? : kind ≠ .operator := by
  rcases punctuationKind?_eq_some_iff.mp h with ⟨-, rfl⟩ | ⟨-, rfl⟩ | ⟨-, rfl⟩ <;> decide

theorem isWhitespace_of_punctuationKind? : isWhitespace c = false := by
  rcases punctuationKind?_eq_some_iff.mp h with ⟨rfl, -⟩ | ⟨rfl, -⟩ | ⟨rfl, -⟩ <;> decide +kernel

theorem isNameChar_of_punctuationKind? : Grammar.isNameChar c = false := by
  rcases punctuationKind?_eq_some_iff.mp h with ⟨rfl, -⟩ | ⟨rfl, -⟩ | ⟨rfl, -⟩ <;> decide

end Classes

/-! ### The characters of numerals -/

namespace Text.Cutting

/-- Whether the cutting takes only characters of a class. -/
def TakesOnly (p : Char → Bool) (cut : Cutting) : Prop := ∀ text, ∀ c ∈ (cut text).1, p c = true

variable {p q : Char → Bool}

theorem takesOnly_nothing : TakesOnly p nothing := fun _ _ h ↦ by cases h

section Classes

variable (hq : ∀ c, q c = true → p c = true)

include hq

theorem takesOnly_many : TakesOnly p (many q) := fun _ c hc ↦ hq c (List.mem_takeWhile_imp hc)

theorem TakesOnly.behind {cut : Cutting} (hcut : TakesOnly p cut) : TakesOnly p (behind q cut) := by
  intro text c hc
  cases text with
  | nil => cases hc
  | cons first rest =>
    rw [Cutting.behind] at hc
    split at hc
    · rename_i hfirst
      rcases List.mem_cons.mp hc with rfl | hc
      · exact hq c hfirst
      · exact hcut rest c hc
    · cases hc

theorem takesOnly_atMostOne : TakesOnly p (atMostOne q) := takesOnly_nothing.behind hq

end Classes

theorem TakesOnly.followedBy {first second : Cutting} (hfirst : TakesOnly p first)
    (hsecond : TakesOnly p second) : TakesOnly p (followedBy first second) := by
  intro text c hc
  rcases List.mem_append.mp hc with hc | hc
  · exact hfirst text c hc
  · exact hsecond _ c hc

end Text.Cutting

namespace Numeral

open Cutting

/-- The characters of numerals: letters and digits, signs and the point. -/
def isNumeralChar (c : Char) : Bool := c.isAlphanum || isSign c || isPoint c

theorem isNumeralChar_of_isAlphanum {c : Char} (h : c.isAlphanum = true) :
    isNumeralChar c = true := by
  rw [isNumeralChar, h, Bool.true_or, Bool.true_or]

theorem isNumeralChar_of_isAlpha {c : Char} (h : c.isAlpha = true) : isNumeralChar c = true :=
  isNumeralChar_of_isAlphanum (by rw [Char.isAlphanum, h, Bool.true_or])

theorem isNumeralChar_of_isDigit (c : Char) (h : c.isDigit = true) : isNumeralChar c = true :=
  isNumeralChar_of_isAlphanum (by rw [Char.isAlphanum, h, Bool.or_true])

theorem isNumeralChar_of_isSign (c : Char) (h : isSign c = true) : isNumeralChar c = true := by
  rw [isNumeralChar, h, Bool.or_true, Bool.true_or]

theorem isNumeralChar_of_isPoint (c : Char) (h : isPoint c = true) : isNumeralChar c = true := by
  rw [isNumeralChar, h, Bool.or_true]

/-- Marks and binary digits are one of two letters or digits. -/
theorem isNumeralChar_of_beq_or {first second : Char} (hfirst : first.isAlphanum = true)
    (hsecond : second.isAlphanum = true) (c : Char) (h : (c == first || c == second) = true) :
    isNumeralChar c = true := by
  rcases (Bool.or_eq_true _ _).mp h with h | h
  · exact isNumeralChar_of_isAlphanum (eq_of_beq h ▸ hfirst)
  · exact isNumeralChar_of_isAlphanum (eq_of_beq h ▸ hsecond)

theorem isNumeralChar_of_isLowerHexLetter (c : Char) (h : isLowerHexLetter c = true) :
    isNumeralChar c = true := by
  obtain ⟨hfrom, hto⟩ := (Bool.and_eq_true _ _).mp h
  have hlast : c ≤ 'z' := Char.le_trans (of_decide_eq_true hto) (by decide)
  have hlower : c.isLower = true := (Bool.and_eq_true _ _).mpr ⟨hfrom, decide_eq_true hlast⟩
  exact isNumeralChar_of_isAlpha ((Bool.or_eq_true _ _).mpr (Or.inr hlower))

theorem isNumeralChar_of_isUpperHexLetter (c : Char) (h : isUpperHexLetter c = true) :
    isNumeralChar c = true := by
  obtain ⟨hfrom, hto⟩ := (Bool.and_eq_true _ _).mp h
  have hlast : c ≤ 'Z' := Char.le_trans (of_decide_eq_true hto) (by decide)
  have hupper : c.isUpper = true := decide_eq_true ⟨of_decide_eq_true hfrom, hlast⟩
  exact isNumeralChar_of_isAlpha ((Bool.or_eq_true _ _).mpr (Or.inl hupper))

theorem takesOnly_digits : TakesOnly isNumeralChar (many Char.isDigit) :=
  takesOnly_many isNumeralChar_of_isDigit

theorem takesOnly_decimal : TakesOnly isNumeralChar decimal := by
  have hsign : TakesOnly isNumeralChar (atMostOne isSign) :=
    takesOnly_atMostOne isNumeralChar_of_isSign
  have hfraction : TakesOnly isNumeralChar fraction :=
    takesOnly_digits.behind isNumeralChar_of_isPoint
  have hexponent : TakesOnly isNumeralChar exponent :=
    (hsign.followedBy takesOnly_digits).behind (isNumeralChar_of_beq_or rfl rfl)
  have himaginary : TakesOnly isNumeralChar (atMostOne isImaginaryMark) :=
    takesOnly_atMostOne fun c hc ↦ isNumeralChar_of_isAlphanum (eq_of_beq hc ▸ rfl)
  exact hsign.followedBy <| takesOnly_digits.followedBy <| hfraction.followedBy <|
    hexponent.followedBy himaginary

/-- Digits mixed with letters. -/
theorem takesOnly_digitsOr {p : Char → Bool} (hp : ∀ c, p c = true → isNumeralChar c = true) :
    TakesOnly isNumeralChar (many fun c ↦ c.isDigit || p c) :=
  takesOnly_many fun c hc ↦
    ((Bool.or_eq_true _ _).mp hc).elim (isNumeralChar_of_isDigit c) (hp c)

theorem takesOnly_hexLetters : TakesOnly isNumeralChar hexLetters := by
  intro text
  unfold hexLetters
  split
  · exact takesOnly_digitsOr isNumeralChar_of_isLowerHexLetter text
  · split
    · exact takesOnly_digitsOr isNumeralChar_of_isUpperHexLetter text
    · exact takesOnly_nothing text

theorem takesOnly_hexDigits : TakesOnly isNumeralChar hexDigits :=
  takesOnly_digits.followedBy takesOnly_hexLetters

theorem takesOnly_binaryDigits : TakesOnly isNumeralChar binaryDigits :=
  takesOnly_many (isNumeralChar_of_beq_or rfl rfl)

/-- A numeral consists of letters and digits, signs and points. -/
theorem takesOnly_cut : TakesOnly isNumeralChar cut := by
  -- Behind the zero and a mark, the digits are cut off by one of the cuttings above.
  have hmarked {mark : Char} {digits : List Char} (hmark : isNumeralChar mark = true)
      (hdigits : ∀ c ∈ digits, isNumeralChar c = true) :
      ∀ c ∈ '0' :: mark :: digits, isNumeralChar c = true :=
    List.forall_mem_cons.mpr ⟨rfl, List.forall_mem_cons.mpr ⟨hmark, hdigits⟩⟩
  intro text
  unfold cut
  split
  · rename_i mark rest
    split
    · rename_i hmark
      exact hmarked (isNumeralChar_of_beq_or rfl rfl mark hmark) (takesOnly_hexDigits rest)
    · split
      · rename_i hmark
        exact hmarked (isNumeralChar_of_beq_or rfl rfl mark hmark) (takesOnly_binaryDigits rest)
      · exact takesOnly_decimal _
  · exact takesOnly_decimal text

theorem isWhitespace_of_isNumeralChar {c : Char} (h : isNumeralChar c = true) :
    isWhitespace c = false := by
  refine Bool.eq_false_iff.mpr fun hspace ↦ ?_
  rw [isNumeralChar, isAlphanum_of_isWhitespace hspace, isSign_of_isWhitespace hspace,
    isPoint_of_isWhitespace hspace] at h
  cases h

end Numeral

theorem isNumeralChar_of_punctuationKind? {c : Char} {kind : TokenKind}
    (h : punctuationKind? c = some kind) : Numeral.isNumeralChar c = false := by
  rcases punctuationKind?_eq_some_iff.mp h with ⟨rfl, -⟩ | ⟨rfl, -⟩ | ⟨rfl, -⟩ <;> decide

/-! ### The characters of tokens -/

namespace Grammar.Consistent

variable {g : Grammar}

/-- A symbol that is not the symbol of an operator is a single parenthesis or comma. -/
theorem kind_of_symbol? (hg : g.Consistent) {text : String} {symbol : Symbol}
    (hsymbol : g.symbol? text = some symbol) (hkind : symbol.kind ≠ .operator) :
    ∃ c, text = String.singleton c ∧ punctuationKind? c = some symbol.kind := by
  have hsame {other : String} {reserved : Symbol} (hother : g.symbol? other = some reserved)
      (htext : text = other) : symbol = reserved :=
    Option.some.inj (hsymbol.symm.trans (htext ▸ hother))
  by_cases hopen : text = "("
  · exact ⟨'(', hopen, hsame hg.openParen hopen ▸ rfl⟩
  · by_cases hclose : text = ")"
    · exact ⟨')', hclose, hsame hg.closeParen hclose ▸ rfl⟩
    · by_cases hcomma : text = ","
      · exact ⟨',', hcomma, hsame hg.comma hcomma ▸ rfl⟩
      · obtain ⟨o, rfl, -⟩ := hg.operator_symbol text symbol hsymbol hopen hclose hcomma
        exact (hkind rfl).elim

end Grammar.Consistent

namespace Lexer

variable {g : Grammar} {c : Char} {rest left : List Char} {token : Token}

/-- There is no whitespace in a token. -/
theorem Cuts.isWhitespace_eq_false (hg : g.Consistent) (h : Cuts g c rest token left) :
    ∀ other ∈ token.text.toList, isWhitespace other = false := by
  intro other hother
  cases h with
  | number hstart hend =>
    rw [String.toList_ofList] at hother
    exact Numeral.isWhitespace_of_isNumeralChar (Numeral.takesOnly_cut _ other hother)
  | identifier hstart =>
    rw [String.toList_ofList] at hother
    refine Bool.eq_false_iff.mpr fun hspace ↦ ?_
    have hname := List.mem_takeWhile_imp hother
    rw [Grammar.isNameChar_of_isWhitespace hspace] at hname
    cases hname
  | symbol hpos hsymbol =>
    exact Grammar.isWhitespace_of_isOperatorChar
      (Grammar.isOperatorChar_of_isOperatorText (hg.isOperatorText _ _ hsymbol) other hother)

/-- A parenthesis or comma in a token that is no operator is the whole token. -/
theorem Cuts.eq_of_punctuation (hg : g.Consistent) (h : Cuts g c rest token left)
    (hkind : token.kind ≠ .operator) {other : Char} {kind : TokenKind}
    (hother : other ∈ token.text.toList) (hpunctuation : punctuationKind? other = some kind) :
    token = ⟨kind, String.singleton other⟩ := by
  cases h with
  | number hstart hend =>
    rw [String.toList_ofList] at hother
    have hnumeral := Numeral.takesOnly_cut _ other hother
    rw [isNumeralChar_of_punctuationKind? hpunctuation] at hnumeral
    cases hnumeral
  | identifier hstart =>
    rw [String.toList_ofList] at hother
    have hname := List.mem_takeWhile_imp hother
    rw [isNameChar_of_punctuationKind? hpunctuation] at hname
    cases hname
  | symbol hpos hsymbol =>
    obtain ⟨only, hlone, honly⟩ := hg.kind_of_symbol? hsymbol hkind
    rw [hlone, String.toList_singleton] at hother
    cases List.mem_singleton.mp hother
    rw [hpunctuation] at honly
    rw [hlone, Option.some.inj honly]

/-! ### Where characters are -/

/-- Whether a text is made of the tokens and of whitespace between them and around them. -/
def DividedInto (tokens : List Token) (text : List Char) : Prop :=
  ∃ blanks, (∀ c ∈ blanks, isWhitespace c = true) ∧ Divided tokens blanks text

/-- Whether each parenthesis and each comma of a text is a token of its own: the tokens before this
one divide the text before the character, and the tokens behind it the text behind. -/
def Punctuated (tokens : List Token) (text : List Char) : Prop :=
  ∀ before c behind kind, text = before ++ c :: behind → punctuationKind? c = some kind →
    ∃ earlier later, tokens = earlier ++ ⟨kind, String.singleton c⟩ :: later ∧
      DividedInto earlier before ∧ DividedInto later behind

/-- A character of two texts, one after the other, is in the first or in the second. -/
theorem exists_of_append_eq_append_cons {α : Type} {first second before behind : List α} {a : α}
    (h : first ++ second = before ++ a :: behind) :
    (∃ between, first = before ++ a :: between ∧ behind = between ++ second) ∨
      ∃ between, before = first ++ between ∧ second = between ++ a :: behind := by
  rcases List.append_eq_append_iff.mp h with ⟨between, hbefore, hsecond⟩ | ⟨between, hfirst, hrest⟩
  · exact Or.inr ⟨between, hbefore, hsecond⟩
  · rcases List.cons_eq_append_iff.mp hrest with ⟨rfl, hsecond⟩ | ⟨rest, rfl, hbehind⟩
    · exact Or.inr ⟨[], by rw [hfirst, List.append_nil, List.append_nil], hsecond⟩
    · exact Or.inl ⟨rest, hfirst, hbehind⟩

/-- Assumes: a parenthesis or comma in a token is the whole token. Then each one in a text that the
tokens divide is a token of its own. -/
theorem Divided.punctuated {tokens : List Token} {rest text : List Char}
    (h : Divided tokens rest text) (hrest : ∀ c ∈ rest, isWhitespace c = true)
    (halone : ∀ token ∈ tokens, ∀ c ∈ token.text.toList, ∀ kind, punctuationKind? c = some kind →
      token = ⟨kind, String.singleton c⟩) : Punctuated tokens text := by
  induction h with
  | nil rest =>
    rintro before c behind kind rfl hkind
    have hspace := hrest c (List.mem_append_right before List.mem_cons_self)
    rw [isWhitespace_of_punctuationKind? hkind] at hspace
    cases hspace
  | @cons token tokens blanks rest text hblanks hne hdivided ih =>
    intro before c behind kind htext hkind
    obtain ⟨htoken, hothers⟩ := List.forall_mem_cons.mp halone
    rcases exists_of_append_eq_append_cons htext with ⟨between, rfl, -⟩ | ⟨between, rfl, hinside⟩
    · have hspace := hblanks c (List.mem_append_right before List.mem_cons_self)
      rw [isWhitespace_of_punctuationKind? hkind] at hspace
      cases hspace
    rcases exists_of_append_eq_append_cons hinside with ⟨last, hchars, rfl⟩ | ⟨middle, rfl, hmiddle⟩
    · -- The character is in the first token, and so it is the whole token.
      have hmem : c ∈ token.text.toList := by
        rw [hchars]
        exact List.mem_append_right between List.mem_cons_self
      have hwhole := htoken c hmem kind hkind
      rw [hwhole, String.toList_singleton] at hchars
      obtain ⟨rfl, hlast⟩ : between = [] ∧ last = [] := by
        have hlength := congrArg List.length hchars
        simp only [List.length_append, List.length_cons, List.length_nil] at hlength
        exact ⟨List.length_eq_zero_iff.mp (by omega), List.length_eq_zero_iff.mp (by omega)⟩
      refine ⟨[], tokens, by rw [hwhole, List.nil_append], ?_, ?_⟩
      · rw [List.append_nil]
        exact ⟨blanks, hblanks, .nil blanks⟩
      · rw [hlast, List.nil_append]
        exact ⟨rest, hrest, hdivided⟩
    · obtain ⟨earlier, later, rfl, ⟨others, hspaces, hearlier⟩, hlater⟩ :=
        ih hrest hothers middle c behind kind hmiddle hkind
      exact ⟨token :: earlier, later, rfl, ⟨others, hspaces, .cons hblanks hne hearlier⟩, hlater⟩

/-- Tokens before others divide the text before them. -/
theorem Divided.exists_of_append {first : List Token} {token : Token} {second : List Token}
    {rest text : List Char} (h : Divided (first ++ token :: second) rest text) :
    ∃ before behind, text = before ++ (token.text.toList ++ behind) ∧ DividedInto first before := by
  induction first generalizing text with
  | nil =>
    cases h with
    | @cons _ _ blanks _ behind hblanks hne hrest =>
      exact ⟨blanks, behind, rfl, blanks, hblanks, .nil blanks⟩
  | cons next first ih =>
    cases h with
    | @cons _ _ blanks _ behind hblanks hne hrest =>
      obtain ⟨before, last, rfl, spaces, hspaces, hfirst⟩ := ih hrest
      refine ⟨blanks ++ (next.text.toList ++ before), last, ?_, spaces, hspaces,
        .cons hblanks hne hfirst⟩
      simp only [List.append_assoc]

/-- Without its whitespace, a text is what its tokens are together. -/
theorem DividedInto.filter_eq {tokens : List Token} {text : List Char} (h : DividedInto tokens text)
    (htokens : ∀ token ∈ tokens, ∀ c ∈ token.text.toList, isWhitespace c = false) :
    text.filter (fun c ↦ !isWhitespace c) = tokens.flatMap fun token ↦ token.text.toList := by
  have hdropped {blanks : List Char} (hblanks : ∀ c ∈ blanks, isWhitespace c = true) :
      blanks.filter (fun c ↦ !isWhitespace c) = [] :=
    List.filter_eq_nil_iff.mpr fun c hc ↦ by rw [hblanks c hc]; decide
  obtain ⟨blanks, hblanks, hdivided⟩ := h
  induction hdivided with
  | nil => exact hdropped hblanks
  | @cons token tokens spaces rest text hspaces hne hrest ih =>
    obtain ⟨htoken, hothers⟩ := List.forall_mem_cons.mp htokens
    have hkept : token.text.toList.filter (fun c ↦ !isWhitespace c) = token.text.toList :=
      List.filter_eq_self.mpr fun c hc ↦ by rw [htoken c hc]; rfl
    rw [List.filter_append, List.filter_append, hdropped hspaces, hkept, ih hothers hblanks,
      List.flatMap_cons, List.nil_append]

/-- Assumes: tokens without whitespace in them that divide a text, and each parenthesis and comma of
the text is a token of its own. There is none in an operator. -/
theorem Punctuated.not_holdsPunctuation {tokens : List Token} {text : List Char}
    (h : Punctuated tokens text) (hdivided : DividedInto tokens text)
    (htokens : ∀ token ∈ tokens, ∀ c ∈ token.text.toList, isWhitespace c = false) {token : Token}
    (hmem : token ∈ tokens) (hkind : token.kind = .operator) : ¬ HoldsPunctuation token.text := by
  rintro ⟨c, hc, hsome⟩
  obtain ⟨kind, hpunctuation⟩ := Option.isSome_iff_exists.mp hsome
  obtain ⟨first, second, rfl⟩ := List.append_of_mem hmem
  obtain ⟨start, last, hchars⟩ := List.append_of_mem hc
  obtain ⟨_, -, hwhole⟩ := hdivided
  obtain ⟨before, behind, rfl, hfirst⟩ := hwhole.exists_of_append
  have htext : before ++ (token.text.toList ++ behind) =
      (before ++ start) ++ c :: (last ++ behind) := by
    rw [hchars]
    simp only [List.append_assoc, List.cons_append]
  obtain ⟨earlier, later, hsplit, hearlier, -⟩ := h _ c _ kind htext hpunctuation
  -- Before the character, both divisions have the same text without its whitespace.
  have hsame : (earlier.flatMap fun token ↦ token.text.toList) =
      (first.flatMap fun token ↦ token.text.toList) ++ start := by
    have hvisible : start.filter (fun c ↦ !isWhitespace c) = start := by
      refine List.filter_eq_self.mpr fun other hother ↦ ?_
      rw [htokens token hmem other (hchars ▸ List.mem_append_left _ hother)]
      rfl
    rw [← hearlier.filter_eq fun other hother ↦
        htokens other (hsplit ▸ List.mem_append_left _ hother),
      ← hfirst.filter_eq fun other hother ↦ htokens other (List.mem_append_left _ hother),
      List.filter_append, hvisible]
  have hlength := congrArg List.length hsame
  have htoken := congrArg List.length hchars
  rcases exists_of_append_eq_append_cons hsplit with ⟨middle, rfl, -⟩ | ⟨middle, rfl, hrest⟩
  · simp only [List.flatMap_append, List.flatMap_cons, List.length_append,
      String.toList_singleton, List.length_singleton] at hlength
    omega
  · rcases List.cons_eq_append_iff.mp hrest with ⟨-, hcons⟩ | ⟨others, rfl, -⟩
    · -- The two tokens are the same, but the one is an operator.
      cases hcons
      exact ne_operator_of_punctuationKind? hpunctuation hkind
    · simp only [List.flatMap_append, List.flatMap_cons, List.length_append, List.length_cons]
        at hlength htoken
      omega

end Lexer

namespace Grammar

variable {g : Grammar} {text : String}

/-- A text without an error is made of its tokens and of whitespace. -/
theorem Consistent.dividedInto_tokens (hg : g.Consistent)
    (hnone : (Lexer.run g (.ofText text)).failure = none) :
    Lexer.DividedInto (g.tokens text) text.toList := by
  have hdivides := (Lexer.runs_run g text.toList).divides hg
  obtain ⟨blanks, hblanks, hdivided⟩ := hdivides.divided
  have hrest : (Lexer.run g (.reading text.toList)).rest = [] := hdivides.ended hnone
  rw [hrest, List.append_nil] at hdivided
  exact ⟨blanks, hblanks, hdivided⟩

/-- In a text without an error, each parenthesis and each comma is a token of its own exactly if
there is none in its operators. -/
theorem Consistent.punctuated_tokens_iff (hg : g.Consistent)
    (hnone : (Lexer.run g (.ofText text)).failure = none) :
    Lexer.Punctuated (g.tokens text) text.toList ↔
      ∀ token ∈ g.tokens text, token.kind = .operator → ¬ HoldsPunctuation token.text := by
  have hcuts : ∀ token ∈ g.tokens text, ∃ c rest left, Lexer.Cuts g c rest token left :=
    fun _ htoken ↦ (Lexer.runs_run g text.toList).exists_cuts htoken
  have hdivided := hg.dividedInto_tokens hnone
  constructor
  · intro hpunctuated token htoken hkind
    refine hpunctuated.not_holdsPunctuation hdivided (fun other hother ↦ ?_) htoken hkind
    obtain ⟨c, rest, left, hcut⟩ := hcuts other hother
    exact hcut.isWhitespace_eq_false hg
  · intro hoperators
    obtain ⟨blanks, hblanks, hdivided⟩ := hdivided
    refine hdivided.punctuated hblanks fun token htoken c hc kind hpunctuation ↦ ?_
    obtain ⟨first, rest, left, hcut⟩ := hcuts token htoken
    refine hcut.eq_of_punctuation hg (fun hkind ↦ ?_) hc hpunctuation
    refine hoperators token htoken hkind ⟨c, hc, ?_⟩
    rw [hpunctuation, Option.isSome_some]

/-- Assumes: a reachable grammar. In a text that is cut into tokens without an error, each
parenthesis and each comma is a token of its own, of its own kind, exactly if there is none in the
operators of the text. This is so for all these texts exactly if there is none in the symbols of the
registered operators. -/
theorem Reachable.punctuated_iff {g : Grammar} (hg : g.Reachable) :
    (∀ text : String, (Lexer.run g (.ofText text)).failure = none →
      (Lexer.Punctuated (g.tokens text) text.toList ↔
        ∀ token ∈ g.tokens text, token.kind = .operator → ¬ HoldsPunctuation token.text)) ∧
    ((∀ text : String, (Lexer.run g (.ofText text)).failure = none →
        Lexer.Punctuated (g.tokens text) text.toList) ↔
      ∀ symbol o, g.operator? symbol = some o → ¬ HoldsPunctuation symbol) := by
  have hg := hg.consistent
  refine ⟨fun text hnone ↦ hg.punctuated_tokens_iff hnone, fun hall symbol o ho ↦ ?_,
    fun hsymbols ↦ ?_⟩
  · -- The symbol alone is a text with one token.
    have hrun := Lexer.run_of_stands (hg.stands_operator ho)
    have hnone : (Lexer.run g (.ofText symbol)).failure = none := congrArg LexerRun.failure hrun
    have htokens : g.tokens symbol = [⟨.operator, symbol⟩] := congrArg LexerRun.tokens hrun
    have hoperators := (hg.punctuated_tokens_iff hnone).mp (hall symbol hnone)
    rw [htokens] at hoperators
    exact hoperators _ List.mem_cons_self rfl
  · intro text hnone
    refine (hg.punctuated_tokens_iff hnone).mpr fun token htoken hkind ↦ ?_
    obtain ⟨o, ho⟩ := (Lexer.runs_run g text.toList).operator?_of_mem htoken hkind
    exact hsymbols token.text o ho

theorem punctuated_iff_standard : standard.Reachable ∧
    (Lexer.run standard (.ofText "atan2((x),-1) - 2")).failure = none ∧
    Lexer.Punctuated (standard.tokens "atan2((x),-1) - 2") "atan2((x),-1) - 2".toList := by
  have hnone : (Lexer.run standard (.ofText "atan2((x),-1) - 2")).failure = none := by
    decide +kernel
  exact ⟨.standard, hnone,
    ((Reachable.punctuated_iff .standard).1 _ hnone).mpr (by decide +kernel)⟩

/-- An operator whose symbol is two parentheses. -/
def doubledParen : Operator := ⟨"((", 3, .left, (· * ·)⟩

/-- The standard grammar with that operator. -/
def doubling : Grammar := standard.insertOperator doubledParen

/-- The operator is registered, and from then on the first two parentheses of `((2))` are one token,
which is an operator. -/
theorem not_punctuated_doubling : standard.registerOperator doubledParen = .ok doubling ∧
    doubling.Reachable ∧ (Lexer.run doubling (.ofText "((2))")).failure = none ∧
    doubling.tokens "((2))" =
      [⟨.operator, "(("⟩, ⟨.number, "2"⟩, ⟨.closeParen, ")"⟩, ⟨.closeParen, ")"⟩] ∧
    ¬ Lexer.Punctuated (doubling.tokens "((2))") "((2))".toList := by
  have hregister : standard.registerOperator doubledParen = .ok doubling :=
    if_pos (by decide +kernel)
  have htokens : doubling.tokens "((2))" =
      [⟨.operator, "(("⟩, ⟨.number, "2"⟩, ⟨.closeParen, ")"⟩, ⟨.closeParen, ")"⟩] := by
    decide +kernel
  refine ⟨hregister, .registerOperator .standard hregister, by decide +kernel, htokens, ?_⟩
  intro hpunctuated
  obtain ⟨earlier, later, hsplit, -, -⟩ :=
    hpunctuated [] '(' ['(', '2', ')', ')'] .openParen (by decide +kernel) rfl
  have hmem : (⟨.openParen, "("⟩ : Token) ∈ doubling.tokens "((2))" := by
    rw [hsplit]
    exact List.mem_append_right earlier List.mem_cons_self
  rw [htokens] at hmem
  exact absurd hmem (by decide)

end Grammar

end Formulary
