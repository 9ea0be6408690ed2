import Formulary.Proofs.DecimalNumeral
import Formulary.Proofs.Lexing

/-!
# The next character decides

Where a token ends is decided by the character behind it. A cutting that looks no further takes the
same off a text when the text behind is replaced by one with the same first character. Whitespace
belongs to no token, so such a cutting also takes the same where whitespace follows, or nothing
(`Cutting.Stable`). That is kept when cuttings are composed, and numerals are cut off in this way
(`Numeral.stable_cut`).

Main statement: every token that a lexer cuts off a text stands for itself (`Lexer.Runs.stands`), so
it is cut off again with whitespace behind it.
-/

set_option autoImplicit false
set_option relaxedAutoImplicit false

namespace Formulary

open Text

/-! ### Cuttings that look at the next character only -/

namespace Text.Cutting

/-- Whether a text can stand where another one was without being mistaken for it: it starts with the
same character, or with whitespace, or it is empty. -/
def Replaces (rest left : List Char) : Prop := rest.head? = left.head? ∨ Apart rest

/-- Whether what the cutting takes off a text is taken off again when the text behind it is
replaced. -/
def Stable (cut : Cutting) : Prop :=
  ∀ text rest, Replaces rest (cut text).2 → cut ((cut text).1 ++ rest) = ((cut text).1, rest)

theorem Replaces.head {p : Char → Bool} (hp : ∀ c, isWhitespace c = true → p c = false)
    {rest left : List Char} (h : Replaces rest left) (hleft : ∀ c ∈ left.head?, p c = false) :
    ∀ c ∈ rest.head?, p c = false := by
  rcases h with hsame | hapart
  · rwa [hsame]
  · exact hapart.head hp

theorem Replaces.not_any_head? {p : Char → Bool} (hp : ∀ c, isWhitespace c = true → p c = false)
    {rest left : List Char} (h : Replaces rest left) (hleft : ¬ left.head?.any p = true) :
    ¬ rest.head?.any p = true := by
  rcases h with hsame | hapart
  · rwa [hsame]
  · cases rest with
    | nil => exact Bool.false_ne_true
    | cons c rest => exact Bool.eq_false_iff.mp (hp c (hapart c rfl))

theorem stable_nothing : Stable nothing := fun _ _ _ ↦ rfl

section Classes

variable {p : Char → Bool} (hp : ∀ c, isWhitespace c = true → p c = false)
include hp

theorem stable_many : Stable (many p) := by
  intro text rest hrest
  refine many_append (fun c hc ↦ List.mem_takeWhile_imp hc) (hrest.head hp fun c hc ↦ ?_)
  have hhead := List.head?_dropWhile_not p text
  rw [show (text.dropWhile p).head? = some c from hc] at hhead
  simpa using hhead

theorem Stable.behind {cut : Cutting} (hcut : Stable cut) : Stable (behind p cut) := by
  intro text rest hrest
  cases text with
  | nil => exact behind_of_head (hrest.head hp fun c hc ↦ by cases hc) cut
  | cons c text =>
    by_cases hc : p c = true
    · rw [behind_cons hc] at hrest ⊢
      rw [List.cons_append, behind_cons hc, hcut text rest hrest]
    · have hnone : Cutting.behind p cut (c :: text) = ([], c :: text) := if_neg hc
      rw [hnone] at hrest ⊢
      refine behind_of_head (hrest.head hp fun other hother ↦ ?_) cut
      cases hother
      exact Bool.eq_false_iff.mpr hc

theorem stable_atMostOne : Stable (atMostOne p) := stable_nothing.behind hp

end Classes

/-- The second cutting begins with what the first has left, so what the second one takes replaces
it. -/
theorem Stable.followedBy {first second : Cutting} (hfirst : Stable first)
    (hsecond : Stable second) (hdivides : Divides second) : Stable (followedBy first second) := by
  intro text rest hrest
  have hmore := hsecond (first text).2 rest hrest
  have hleft := hdivides (first text).2
  have hreplaces : Replaces ((second (first text).2).1 ++ rest) (first text).2 := by
    cases htaken : (second (first text).2).1 with
    | nil =>
      rw [htaken, List.nil_append] at hleft
      rwa [List.nil_append, ← hleft]
    | cons c taken =>
      rw [htaken] at hleft
      rw [← hleft]
      exact Or.inl rfl
  simp only [Cutting.followedBy, List.append_assoc, hfirst text _ hreplaces, hmore]

end Text.Cutting

/-! ### Numerals -/

namespace Numeral

open Cutting

theorem stable_digits : Stable (many Char.isDigit) := stable_many fun _ ↦ isDigit_of_isWhitespace

theorem stable_sign : Stable (atMostOne isSign) := stable_atMostOne fun _ ↦ isSign_of_isWhitespace

theorem divides_exponent : Divides exponent :=
  ((divides_atMostOne _).followedBy (divides_many _)).behind _

theorem divides_fraction : Divides fraction := (divides_many _).behind _

theorem stable_exponent : Stable exponent :=
  (stable_sign.followedBy stable_digits (divides_many _)).behind
    fun _ ↦ isExponentMark_of_isWhitespace

theorem stable_decimal : Stable decimal := by
  have himaginary : Stable (atMostOne isImaginaryMark) :=
    stable_atMostOne fun _ ↦ isImaginaryMark_of_isWhitespace
  have hfraction : Stable fraction := stable_digits.behind fun _ ↦ isPoint_of_isWhitespace
  have hmark := stable_exponent.followedBy himaginary (divides_atMostOne _)
  have hdivides : Divides (followedBy exponent (atMostOne isImaginaryMark)) :=
    divides_exponent.followedBy (divides_atMostOne _)
  have hpoint := hfraction.followedBy hmark hdivides
  have hwhole := stable_digits.followedBy hpoint (divides_fraction.followedBy hdivides)
  exact stable_sign.followedBy hwhole
    ((divides_many _).followedBy (divides_fraction.followedBy hdivides))

theorem hexLetters_of_lower {text : List Char} (h : text.head?.any isLowerHexLetter = true) :
    hexLetters text = many (fun c ↦ c.isDigit || isLowerHexLetter c) text := if_pos h

theorem hexLetters_of_upper {text : List Char} (hlower : ¬ text.head?.any isLowerHexLetter = true)
    (h : text.head?.any isUpperHexLetter = true) :
    hexLetters text = many (fun c ↦ c.isDigit || isUpperHexLetter c) text :=
  (if_neg hlower).trans (if_pos h)

theorem hexLetters_of_neither {text : List Char}
    (hlower : ¬ text.head?.any isLowerHexLetter = true)
    (hupper : ¬ text.head?.any isUpperHexLetter = true) : hexLetters text = ([], text) :=
  (if_neg hlower).trans (if_neg hupper)

theorem stable_digitsOr {p : Char → Bool} (hp : ∀ c, isWhitespace c = true → p c = false) :
    Stable (many fun c ↦ c.isDigit || p c) :=
  stable_many fun c hc ↦ by rw [isDigit_of_isWhitespace hc, hp c hc, Bool.or_self]

/-- A first character that belongs to the class is taken. -/
theorem head?_digitsOr_append {p : Char → Bool} {text : List Char}
    (h : text.head?.any p = true) (rest : List Char) :
    ((many (fun c ↦ c.isDigit || p c) text).1 ++ rest).head? = text.head? := by
  cases text with
  | nil => cases h
  | cons c text =>
    have hp : p c = true := h
    simp only [many, List.takeWhile_cons, hp, Bool.or_true, if_true, List.cons_append,
      List.head?_cons]

/-- The first letter is taken, so it selects the same case of letters again. -/
theorem stable_hexLetters : Stable hexLetters := by
  intro text rest hrest
  by_cases hlower : text.head?.any isLowerHexLetter = true
  · have hhead := head?_digitsOr_append hlower rest
    rw [hexLetters_of_lower hlower] at hrest ⊢
    rw [hexLetters_of_lower (by rw [hhead]; exact hlower)]
    exact stable_digitsOr (fun _ ↦ isLowerHexLetter_of_isWhitespace) text rest hrest
  · by_cases hupper : text.head?.any isUpperHexLetter = true
    · have hhead := head?_digitsOr_append hupper rest
      rw [hexLetters_of_upper hlower hupper] at hrest ⊢
      rw [hexLetters_of_upper (by rw [hhead]; exact hlower) (by rw [hhead]; exact hupper)]
      exact stable_digitsOr (fun _ ↦ isUpperHexLetter_of_isWhitespace) text rest hrest
    · rw [hexLetters_of_neither hlower hupper] at hrest ⊢
      exact hexLetters_of_neither
        (hrest.not_any_head? (fun _ ↦ isLowerHexLetter_of_isWhitespace) hlower)
        (hrest.not_any_head? (fun _ ↦ isUpperHexLetter_of_isWhitespace) hupper)

theorem stable_hexDigits : Stable hexDigits :=
  stable_digits.followedBy stable_hexLetters divides_hexLetters

theorem stable_binaryDigits : Stable binaryDigits :=
  stable_many fun _ ↦ isBinaryDigit_of_isWhitespace

theorem cut_of_isHexMark {mark : Char} (h : isHexMark mark = true) (rest : List Char) :
    cut ('0' :: mark :: rest) = ('0' :: mark :: (hexDigits rest).1, (hexDigits rest).2) := by
  simp only [cut, if_pos h]

theorem cut_of_isBinaryMark {mark : Char} (hhex : ¬ isHexMark mark = true)
    (h : isBinaryMark mark = true) (rest : List Char) :
    cut ('0' :: mark :: rest) = ('0' :: mark :: (binaryDigits rest).1, (binaryDigits rest).2) := by
  simp only [cut, if_neg hhex, if_pos h]

/-- Assumes: a text that does not start like a hexadecimal or a binary numeral. Neither does the
decimal numeral that is cut off it, whatever replaces the text behind it. -/
theorem marks_of_decimal_append {text rest : List Char}
    (htext : ∀ mark left, text = '0' :: mark :: left →
      isHexMark mark = false ∧ isBinaryMark mark = false)
    (hrest : Replaces rest (decimal text).2) (mark : Char) (left : List Char)
    (h : (decimal text).1 ++ rest = '0' :: mark :: left) :
    isHexMark mark = false ∧ isBinaryMark mark = false := by
  have hdivides := divides_decimal text
  cases htaken : (decimal text).1 with
  | nil =>
    -- A text that starts with zero has a numeral in front, so whitespace must have replaced it.
    rw [htaken, List.nil_append] at h hdivides
    rw [hdivides, h] at hrest
    rcases hrest with hsame | hapart
    · obtain ⟨behind, hbehind⟩ := List.head?_eq_some_iff.mp hsame.symm
      have hshorter : (decimal ('0' :: behind)).2.length < ('0' :: behind).length :=
        length_decimal_lt (Or.inl rfl)
      rw [← hbehind, hdivides] at hshorter
      exact absurd hshorter (Nat.lt_irrefl _)
    · exact absurd (hapart '0' rfl) (by decide)
  | cons c taken =>
    rw [htaken, List.cons_append] at h hdivides
    obtain ⟨rfl, htail⟩ := List.cons.inj h
    cases taken with
    | nil =>
      rw [List.nil_append] at htail hdivides
      rw [htail] at hrest
      rcases hrest with hsame | hapart
      · obtain ⟨behind, hbehind⟩ := List.head?_eq_some_iff.mp hsame.symm
        exact htext mark behind (by rw [← hdivides, hbehind])
      · have hspace := hapart mark rfl
        exact ⟨isHexMark_of_isWhitespace hspace, isBinaryMark_of_isWhitespace hspace⟩
    | cons next taken =>
      obtain ⟨rfl, -⟩ := List.cons.inj htail
      exact htext next _ hdivides.symm

/-- A numeral is cut off again when the text behind it is replaced. -/
theorem stable_cut : Stable cut := by
  intro text rest hrest
  by_cases hmarked : ∃ mark left, text = '0' :: mark :: left ∧
      (isHexMark mark = true ∨ isBinaryMark mark = true)
  · obtain ⟨mark, left, rfl, hmark⟩ := hmarked
    by_cases hhex : isHexMark mark = true
    · rw [cut_of_isHexMark hhex] at hrest ⊢
      simp only [List.cons_append, cut_of_isHexMark hhex, stable_hexDigits left rest hrest]
    · have hbinary : isBinaryMark mark = true := hmark.resolve_left hhex
      rw [cut_of_isBinaryMark hhex hbinary] at hrest ⊢
      simp only [List.cons_append, cut_of_isBinaryMark hhex hbinary,
        stable_binaryDigits left rest hrest]
  · have htext : ∀ mark left, text = '0' :: mark :: left →
        isHexMark mark = false ∧ isBinaryMark mark = false := by
      intro mark left heq
      have hneither := fun hmark ↦ hmarked ⟨mark, left, heq, hmark⟩
      exact ⟨Bool.eq_false_iff.mpr fun h ↦ hneither (Or.inl h),
        Bool.eq_false_iff.mpr fun h ↦ hneither (Or.inr h)⟩
    rw [Written.cut_eq_decimal htext] at hrest ⊢
    rw [Written.cut_eq_decimal (marks_of_decimal_append htext hrest)]
    exact stable_decimal text rest hrest

end Numeral

/-! ### Tokens -/

namespace Lexer

variable {g : Grammar} {c : Char} {rest left : List Char} {token : Token}

/-- Assumes: a numeral that runs into no letter or digit. It stands for itself. -/
theorem stands_of_number (hspace : isWhitespace c = false) (hstart : startsNumber c rest = true)
    (hend : ∀ other ∈ (Numeral.cut (c :: rest)).2.head?, other.isAlphanum = false) :
    Token.Stands g ⟨.number, String.ofList (Numeral.cut (c :: rest)).1⟩ := by
  have hdivides := Numeral.divides_cut (c :: rest)
  cases htaken : (Numeral.cut (c :: rest)).1 with
  | nil =>
    have hfirst : c.isDigit = true ∨ Numeral.isSign c = true := by
      simp only [startsNumber, Bool.or_eq_true, Bool.and_eq_true] at hstart
      exact hstart.imp id And.left
    have hshorter : (Numeral.cut (c :: rest)).2.length < (c :: rest).length :=
      Numeral.length_cut_lt hfirst
    rw [htaken, List.nil_append] at hdivides
    rw [hdivides] at hshorter
    exact absurd hshorter (Nat.lt_irrefl _)
  | cons first cs =>
    rw [htaken, List.cons_append] at hdivides
    obtain ⟨rfl, hrest⟩ := List.cons.inj hdivides
    refine ⟨first, cs, String.toList_ofList, hspace, fun other hapart ↦ ?_⟩
    have hnumber : startsNumber first (cs ++ other) = true := by
      cases cs with
      | nil =>
        -- Behind a sign there is a digit, which would stand behind the numeral.
        rw [List.nil_append] at hrest
        rw [hrest] at hend
        rw [startsNumber, Bool.or_eq_true, Bool.and_eq_true] at hstart ⊢
        refine Or.inl (hstart.resolve_right fun hsign ↦ ?_)
        cases rest with
        | nil => cases hsign.2
        | cons digit rest =>
          have hdigit : digit.isDigit = true := hsign.2
          have hletter := hend digit rfl
          rw [Char.isAlphanum, hdigit, Bool.or_true] at hletter
          cases hletter
      | cons next cs =>
        rw [← hrest] at hstart
        exact hstart
    have hcut : Numeral.cut (first :: (cs ++ other)) = (first :: cs, other) := by
      have hstable := Numeral.stable_cut (first :: rest) other (Or.inr hapart)
      rwa [htaken] at hstable
    rw [cutToken, if_pos hnumber]
    exact cutNumber_of_cut hcut (hapart.head fun _ ↦ isAlphanum_of_isWhitespace)

/-- A token that is cut off a text behind whitespace stands for itself. -/
theorem Cuts.stands (hg : g.Consistent) (hspace : isWhitespace c = false)
    (h : Cuts g c rest token left) : token.Stands g := by
  cases h with
  | number hstart hend => exact stands_of_number hspace hstart hend
  | identifier hstart =>
    refine Token.stands_identifier g ?_
    have hname : Grammar.isNameChar c = true := Grammar.isNameChar_of_isNameStart hstart
    rw [Grammar.isIdentifier, String.toList_ofList, List.takeWhile_cons_of_pos hname]
    simp [hstart]
  | symbol hpos hsymbol => exact hg.stands_symbol hsymbol

/-- The tokens of every run stand for themselves. -/
theorem Runs.stands (hg : g.Consistent) {text : List Char} {run : LexerRun} (h : Runs g text run) :
    ∀ token ∈ run.tokens, token.Stands g := by
  induction h with
  | ended => exact fun _ htoken ↦ by cases htoken
  | failed => exact fun _ htoken ↦ by cases htoken
  | token hblanks hc hcut hrest ih =>
    intro other hother
    rcases List.mem_cons.mp hother with rfl | hother
    · exact (cuts_of_cutToken_eq_ok hcut).stands hg hc
    · exact ih other hother

end Lexer

end Formulary
