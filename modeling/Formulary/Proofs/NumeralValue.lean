import Formulary.Proofs.Composition
import Formulary.Proofs.NumeralLanguage
import Formulary.Proofs.Vocabulary

/-!
# Which numerals have a value

The texts that denote a floating-point number are a regular language, too (`Numeral.floats`). It is
not the language of numerals: it has the texts that start with the point, and no hexadecimal, binary
or imaginary ones, and exponents have digits.

Main statement: a number token becomes a literal when the assembly of a text reaches it, unless it
is hexadecimal, binary or imaginary or has an exponent without digits (`Numeral.Unvalued`). Then the
text does not compile, and the error is that this very token is no number.
-/

set_option autoImplicit false
set_option relaxedAutoImplicit false

namespace Formulary

open Text Cutting

open scoped Computability

namespace Numeral

/-! ### The texts that denote a number -/

/-- At least one digit. -/
def someDigits : Language Char := oneOf Char.isDigit * digits

/-- Digits with an optional point before, among or behind them. -/
def mantissas : Language Char :=
  someDigits + someDigits * oneOf isPoint * digits + digits * oneOf isPoint * someDigits

/-- An exponent mark, an optional sign and at least one digit, or nothing. -/
def fullExponents : Language Char :=
  1 + oneOf isExponentMark * ((1 + oneOf isSign) * someDigits)

/-- The texts of digits that denote a floating-point number. -/
def floats : Language Char := (1 + oneOf isSign) * mantissas * fullExponents

/-- The words that denote a floating-point number, in letters of any case. -/
def words : Language Char :=
  { text | text.map Char.toLower ∈ ["inf".toList, "infinity".toList, "nan".toList] }

/-- The texts of digits and the words that denote a floating-point number. -/
def parsable : Language Char := floats + (1 + oneOf isSign) * words

/-- Whether a text is written like a numeral without a value. -/
inductive Unvalued : List Char → Prop
  /-- It starts like a hexadecimal or a binary numeral. -/
  | prefixed {mark : Char} (rest : List Char)
    (hmark : isHexMark mark = true ∨ isBinaryMark mark = true) : Unvalued ('0' :: mark :: rest)
  /-- It ends in the imaginary mark. -/
  | imaginary (front : List Char) : Unvalued (front ++ ['i'])
  /-- It has an exponent mark and no digit behind it. -/
  | bareExponent (before : List Char) {mark : Char} {behind : List Char}
    (hmark : isExponentMark mark = true) (hbehind : ∀ c ∈ behind, c.isDigit = false) :
    Unvalued (before ++ mark :: behind)

variable {text : List Char}

theorem mem_someDigits : text ∈ someDigits ↔ text ∈ digits ∧ text ≠ [] := by
  constructor
  · rintro ⟨_, ⟨c, hc, rfl⟩, rest, hrest, rfl⟩
    exact ⟨mem_kstar_oneOf.mpr (List.forall_mem_cons.mpr ⟨hc, mem_kstar_oneOf.mp hrest⟩),
      List.cons_ne_nil c rest⟩
  · rintro ⟨hdigits, hne⟩
    obtain ⟨c, rest, rfl⟩ := List.exists_cons_of_ne_nil hne
    obtain ⟨hc, hrest⟩ := List.forall_mem_cons.mp (mem_kstar_oneOf.mp hdigits)
    exact cons_mem_oneOf_mul hc (mem_kstar_oneOf.mpr hrest)

/-- Digits with an optional point are digits before it and digits behind it, not both missing. -/
theorem mem_mantissas_iff : text ∈ mantissas ↔ ∃ whole point, whole ∈ digits ∧ point ∈ fractions ∧
    (whole ≠ [] ∨ point.drop 1 ≠ []) ∧ text = whole ++ point := by
  constructor
  · rintro ((h | ⟨_, ⟨whole, hwhole, _, ⟨c, hc, rfl⟩, rfl⟩, behind, hbehind, rfl⟩) |
      ⟨_, ⟨whole, hwhole, _, ⟨c, hc, rfl⟩, rfl⟩, behind, hbehind, rfl⟩)
    · obtain ⟨hwhole, hne⟩ := mem_someDigits.mp h
      exact ⟨text, [], hwhole, Or.inl rfl, Or.inl hne, (List.append_nil text).symm⟩
    · obtain ⟨hwhole, hne⟩ := mem_someDigits.mp hwhole
      exact ⟨whole, c :: behind, hwhole, Or.inr (cons_mem_oneOf_mul hc hbehind), Or.inl hne,
        List.append_assoc ..⟩
    · obtain ⟨hbehind, hne⟩ := mem_someDigits.mp hbehind
      exact ⟨whole, c :: behind, hwhole, Or.inr (cons_mem_oneOf_mul hc hbehind), Or.inr hne,
        List.append_assoc ..⟩
  · rintro ⟨whole, _, hwhole, rfl | ⟨_, ⟨c, hc, rfl⟩, behind, hbehind, rfl⟩, hne, rfl⟩
    · rw [List.append_nil]
      exact Or.inl (Or.inl (mem_someDigits.mpr ⟨hwhole, hne.resolve_right fun h ↦ h rfl⟩))
    · have htext : whole ++ ([c] ++ behind) = whole ++ [c] ++ behind := (List.append_assoc ..).symm
      have hpoint := mem_oneOf.mpr ⟨c, hc, rfl⟩
      change whole ++ ([c] ++ behind) ∈ mantissas
      rw [htext]
      rcases hne with hwholeNe | hbehindNe
      · exact Or.inl (Or.inr (Language.append_mem_mul (Language.append_mem_mul
          (mem_someDigits.mpr ⟨hwhole, hwholeNe⟩) hpoint) hbehind))
      · exact Or.inr (Language.append_mem_mul (Language.append_mem_mul hwhole hpoint)
          (mem_someDigits.mpr ⟨hbehind, hbehindNe⟩))

/-- Whether a text of digits that denotes a number has the given parts. -/
structure Parts (text sign whole point exponent : List Char) : Prop where
  text_eq : text = sign ++ (whole ++ (point ++ exponent))
  sign_mem : sign ∈ 1 + oneOf isSign
  whole_mem : whole ∈ digits
  point_mem : point ∈ fractions
  digits_ne_nil : whole ≠ [] ∨ point.drop 1 ≠ []
  exponent_mem : exponent ∈ fullExponents

theorem mem_floats_iff :
    text ∈ floats ↔ ∃ sign whole point exponent, Parts text sign whole point exponent := by
  constructor
  · rintro ⟨_, ⟨sign, hsign, mantissa, hmantissa, rfl⟩, exponent, hexponent, rfl⟩
    obtain ⟨whole, point, hwhole, hpoint, hne, rfl⟩ := mem_mantissas_iff.mp hmantissa
    exact ⟨sign, whole, point, exponent, by simp only [List.append_assoc], hsign, hwhole, hpoint,
      hne, hexponent⟩
  · rintro ⟨sign, whole, point, exponent, rfl, hsign, hwhole, hpoint, hne, hexponent⟩
    have hmantissa := mem_mantissas_iff.mpr ⟨whole, point, hwhole, hpoint, hne, rfl⟩
    have hmem : sign ++ (whole ++ point) ++ exponent ∈ floats :=
      Language.append_mem_mul (Language.append_mem_mul hsign hmantissa) hexponent
    simpa only [List.append_assoc] using hmem

/-! ### What is read as a number -/

theorem startsIn_fullExponents : StartsIn isExponentMark fullExponents :=
  startsIn_one.add (startsIn_oneOf_mul fun _ ↦ id)

/-- A sign is cut off where no other one follows. -/
theorem cut_sign_append {sign rest : List Char} (hsign : sign ∈ 1 + oneOf isSign)
    (hrest : ∀ c ∈ rest.head?, isSign c = false) :
    atMostOne isSign (sign ++ rest) = (sign, rest) :=
  munches_sign.cut_append (divides_atMostOne isSign) consistsOf_sign hsign hrest

theorem isSign_of_isBehindDigits (c : Char) (h : isBehindDigits c = true) : isSign c = false := by
  simp only [isBehindDigits, isBehindFraction, isPoint, isExponentMark, isImaginaryMark,
    Bool.or_eq_true, beq_iff_eq] at h
  rcases h with rfl | (rfl | rfl) | rfl <;> rfl

theorem startsIn_fractions_fullExponents : StartsIn isBehindDigits (fractions * fullExponents) :=
  startsIn_fractions.mul ((startsIn_fullExponents.mono isBehindFraction_of_isExponentMark).mono
    isBehindDigits_of_isBehindFraction)

theorem isSign_head_of_mem_digits {whole : List Char} (hwhole : whole ∈ digits) :
    ∀ c ∈ whole.head?, isSign c = false :=
  fun _ hc ↦ isSign_of_isDigit (consistsOf_digits whole hwhole _ (List.mem_of_mem_head? hc))

theorem isSome_readExponent?_cons (mark : Char) (rest : List Char) :
    (Decimal.readExponent? (mark :: rest)).isSome = true ↔ isExponentMark mark = true ∧
      (many Char.isDigit (atMostOne isSign rest).2).1 ≠ [] ∧
        (many Char.isDigit (atMostOne isSign rest).2).2 = [] := by
  simp only [Decimal.readExponent?]
  split
  · rename_i h
    split <;> simpa [and_assoc] using h
  · rename_i h
    simpa [and_assoc] using h

/-- What is read as an exponent are exactly the full exponents. -/
theorem isSome_readExponent?_iff :
    (Decimal.readExponent? text).isSome = true ↔ text ∈ fullExponents := by
  cases text with
  | nil => exact ⟨fun _ ↦ Or.inl rfl, fun _ ↦ rfl⟩
  | cons mark rest =>
    rw [isSome_readExponent?_cons]
    constructor
    · rintro ⟨hmark, hne, hend⟩
      have hrest : (atMostOne isSign rest).1 ++ (many Char.isDigit (atMostOne isSign rest).2).1 =
          rest := by
        have hsign := divides_atMostOne isSign rest
        have hdigits := divides_many Char.isDigit (atMostOne isSign rest).2
        rw [hend, List.append_nil] at hdigits
        rw [hdigits, hsign]
      have hmem := Language.append_mem_mul (munches_sign rest).mem
        (mem_someDigits.mpr ⟨(munches_digits (atMostOne isSign rest).2).mem, hne⟩)
      rw [hrest] at hmem
      exact Or.inr (cons_mem_oneOf_mul hmark hmem)
    · rintro (h | h)
      · cases h
      · obtain ⟨_, _, hmark, ⟨sign, hsign, behind, hbehind, rfl⟩, htext⟩ := mem_oneOf_mul.mp h
        cases htext
        obtain ⟨hdigits, hne⟩ := mem_someDigits.mp hbehind
        have hall : many Char.isDigit (behind ++ []) = (behind, []) :=
          many_append (consistsOf_digits behind hdigits) fun c hc ↦ by cases hc
        rw [List.append_nil] at hall
        rw [cut_sign_append hsign (isSign_head_of_mem_digits hdigits), hall]
        exact ⟨hmark, hne, rfl⟩

/-- What is left of a text behind its sign, its digits, and its point with digits. -/
theorem isSome_read?_eq (text : List Char) :
    (Decimal.read? text).isSome = true ↔
      ((many Char.isDigit (atMostOne isSign text).2).1 ≠ [] ∨
        (fraction (many Char.isDigit (atMostOne isSign text).2).2).1.drop 1 ≠ []) ∧
      (Decimal.readExponent?
        (fraction (many Char.isDigit (atMostOne isSign text).2).2).2).isSome = true := by
  simp only [Decimal.read?]
  split
  · rename_i h
    simp only [Bool.and_eq_true, List.isEmpty_iff] at h
    simp [h.1, h.2]
  · rename_i h
    simp only [Bool.and_eq_true, List.isEmpty_iff, not_and_or] at h
    rw [Option.isSome_map]
    exact (and_iff_right h).symm

/-- The parts of a text are what is cut off it. -/
theorem Parts.cut {sign whole point exponent : List Char}
    (h : Parts text sign whole point exponent) :
    atMostOne isSign text = (sign, whole ++ (point ++ exponent)) ∧
      many Char.isDigit (whole ++ (point ++ exponent)) = (whole, point ++ exponent) ∧
      fraction (point ++ exponent) = (point, exponent) := by
  have hbehind : ∀ c ∈ (point ++ exponent).head?, isBehindDigits c = true :=
    startsIn_fractions_fullExponents _ (Language.append_mem_mul h.point_mem h.exponent_mem)
  refine ⟨?_, ?_, ?_⟩
  · rw [h.text_eq]
    refine cut_sign_append h.sign_mem fun c hc ↦ ?_
    cases whole with
    | nil => exact isSign_of_isBehindDigits c (hbehind c hc)
    | cons digit whole => exact isSign_head_of_mem_digits h.whole_mem c hc
  · exact many_append (consistsOf_digits whole h.whole_mem)
      (head_of_head isDigit_of_isBehindDigits hbehind)
  · refine munches_fraction.cut_append divides_fraction consistsOf_fractions h.point_mem ?_
    exact head_of_head isFractionChar_of_isBehindFraction
      (startsIn_fullExponents.mono isBehindFraction_of_isExponentMark exponent h.exponent_mem)

/-- What is read as a number are exactly the texts of digits that denote one. -/
theorem isSome_read?_iff : (Decimal.read? text).isSome = true ↔ text ∈ floats := by
  rw [isSome_read?_eq, isSome_readExponent?_iff, mem_floats_iff]
  constructor
  · rintro ⟨hne, hexponent⟩
    refine ⟨_, _, _, _, ⟨?_, (munches_sign text).mem, (munches_digits _).mem,
      (munches_fraction _).mem, hne, hexponent⟩⟩
    rw [divides_fraction, divides_many, divides_atMostOne]
  · rintro ⟨sign, whole, point, exponent, h⟩
    obtain ⟨hsign, hwhole, hpoint⟩ := h.cut
    rw [hsign, hwhole, hpoint]
    exact ⟨h.digits_ne_nil, h.exponent_mem⟩

/-- A text has a value exactly if it is a text of digits that denotes a number. -/
theorem isSome_value?_iff {numeral : String} :
    (value? numeral).isSome = true ↔ numeral.toList ∈ floats := by
  rw [value?, Option.isSome_map, isSome_read?_iff]

/-! ### Numerals and the texts that denote a number -/

theorem consistsOf_fullExponents : ConsistsOf isExponentChar fullExponents :=
  consistsOf_one.add ((consistsOf_oneOf fun _ ↦ Bool.or_inl).mul
    ((consistsOf_sign.mono isExponentChar_of_isSign).mul
      (consistsOf_someDigits.mono isExponentChar_of_isDigit)))

theorem Parts.isFloatChar_of_mem {sign whole point exponent : List Char}
    (h : Parts text sign whole point exponent) : ∀ c ∈ text, isFloatChar c = true := by
  rw [h.text_eq]
  simp only [List.forall_mem_append]
  refine ⟨fun c hc ↦ ?_, fun c hc ↦ ?_, fun c hc ↦ ?_, fun c hc ↦ ?_⟩
  · have hsign := isExponentChar_of_isSign c (consistsOf_sign sign h.sign_mem c hc)
    exact isFloatChar_of_isExponentChar c hsign
  · have hdigit := isExponentChar_of_isDigit c (consistsOf_digits whole h.whole_mem c hc)
    exact isFloatChar_of_isExponentChar c hdigit
  · exact isFloatChar_of_isFractionChar c (consistsOf_fractions point h.point_mem c hc)
  · exact isFloatChar_of_isExponentChar c (consistsOf_fullExponents exponent h.exponent_mem c hc)

/-- A full exponent ends in a digit. -/
theorem isDigit_of_getLast? {exponent : List Char} (h : exponent ∈ fullExponents) :
    ∀ c ∈ exponent.getLast?, c.isDigit = true := by
  intro c hc
  obtain rfl | h := h
  · cases hc
  · obtain ⟨mark, _, -, ⟨sign, -, behind, hbehind, rfl⟩, rfl⟩ := mem_oneOf_mul.mp h
    obtain ⟨hdigits, hne⟩ := mem_someDigits.mp hbehind
    rw [show mark :: (sign ++ behind) = mark :: sign ++ behind from rfl,
      List.getLast?_append_of_ne_nil _ hne] at hc
    exact consistsOf_digits behind hdigits c (List.mem_of_getLast? hc)

/-- Behind an exponent mark stands a digit. -/
theorem Parts.not_bareExponent {sign whole point exponent : List Char}
    (h : Parts text sign whole point exponent) {before behind : List Char} {mark : Char}
    (hmark : isExponentMark mark = true) (hbehind : ∀ c ∈ behind, c.isDigit = false) :
    before ++ mark :: behind ≠ text := by
  intro htext
  have hfraction := isBehindFraction_of_isExponentMark mark hmark
  have hmarkBehind := isBehindDigits_of_isBehindFraction mark hfraction
  have hdigit : mark.isDigit = false := isDigit_of_isBehindDigits mark hmarkBehind
  by_cases hexponent : exponent = []
  · -- There is no exponent that the mark could stand in.
    have hmem : mark ∈ sign ++ (whole ++ (point ++ exponent)) := by
      rw [← h.text_eq, ← htext]
      exact List.mem_append_right before List.mem_cons_self
    rw [hexponent, List.append_nil, List.mem_append, List.mem_append] at hmem
    rcases hmem with hmem | hmem | hmem
    · have hsign := consistsOf_sign sign h.sign_mem mark hmem
      rw [isSign_of_isBehindDigits mark hmarkBehind] at hsign
      cases hsign
    · have hwhole := consistsOf_digits whole h.whole_mem mark hmem
      rw [hdigit] at hwhole
      cases hwhole
    · have hpoint := consistsOf_fractions point h.point_mem mark hmem
      rw [isFractionChar_of_isBehindFraction mark hfraction] at hpoint
      cases hpoint
  · -- The text ends in the last digit of the exponent, and that is the mark or stands behind it.
    have hnot : ∀ c ∈ mark :: behind, c.isDigit = false :=
      List.forall_mem_cons.mpr ⟨hdigit, hbehind⟩
    have hlast : exponent.getLast? = (mark :: behind).getLast? := by
      rw [← List.getLast?_append_of_ne_nil (sign ++ (whole ++ point)) hexponent,
        ← List.getLast?_append_of_ne_nil before (List.cons_ne_nil mark behind), htext, h.text_eq]
      simp only [List.append_assoc]
    have hend := List.getLast?_eq_some_getLast (List.cons_ne_nil mark behind)
    have hlastDigit := isDigit_of_getLast? h.exponent_mem _ (hlast.trans hend)
    rw [hnot _ (List.getLast_mem _)] at hlastDigit
    cases hlastDigit

/-- No text that denotes a number is written like a numeral without a value. -/
theorem not_unvalued_of_mem_floats (h : text ∈ floats) : ¬ Unvalued text := by
  obtain ⟨sign, whole, point, exponent, h⟩ := mem_floats_iff.mp h
  have hchars := h.isFloatChar_of_mem
  rintro (⟨rest, hmark⟩ | front | @⟨before, mark, behind, hmark, hbehind⟩)
  · have hfloat := hchars _ (List.mem_cons_of_mem _ List.mem_cons_self)
    rcases hmark with hmark | hmark <;> rcases (Bool.or_eq_true _ _).mp hmark with heq | heq <;>
      · rw [eq_of_beq heq] at hfloat
        cases hfloat
  · cases hchars 'i' (List.mem_append_right front List.mem_cons_self)
  · exact h.not_bareExponent hmark hbehind rfl

/-- The exponent of a numeral is a full one, or it has no digit. -/
theorem mem_fullExponents_or_bare {exponent : List Char} (h : exponent ∈ exponents) :
    exponent ∈ fullExponents ∨ ∃ mark behind, exponent = mark :: behind ∧
      isExponentMark mark = true ∧ ∀ c ∈ behind, c.isDigit = false := by
  obtain rfl | h := h
  · exact Or.inl (Or.inl rfl)
  · obtain ⟨mark, _, hmark, ⟨sign, hsign, behind, hbehind, rfl⟩, rfl⟩ := mem_oneOf_mul.mp h
    by_cases hne : behind = []
    · subst hne
      refine Or.inr ⟨mark, sign ++ [], rfl, hmark, ?_⟩
      rw [List.append_nil]
      exact fun c hc ↦ isDigit_of_isSign c (consistsOf_sign sign hsign c hc)
    · have hfull := mem_someDigits.mpr ⟨hbehind, hne⟩
      exact Or.inl (Or.inr (cons_mem_oneOf_mul hmark (Language.append_mem_mul hsign hfull)))

/-- Every other numeral denotes a number. -/
theorem mem_floats_of_not_unvalued (hmem : text ∈ numerals) (h : ¬ Unvalued text) :
    text ∈ floats := by
  rcases hmem with (hmem | hmem) | hmem
  · obtain ⟨_, ⟨_, ⟨_, ⟨sign, hsign, whole, hwhole, rfl⟩, point, hpoint, rfl⟩, exponent, hexponent,
      rfl⟩, last, hlast, rfl⟩ := hmem
    obtain rfl | ⟨mark, hmark, rfl⟩ := hlast
    · rcases mem_fullExponents_or_bare hexponent with hfull | ⟨mark, behind, rfl, hmark, hbare⟩
      · obtain ⟨hdigits, hne⟩ := mem_someDigits.mp hwhole
        exact mem_floats_iff.mpr ⟨sign, whole, point, exponent,
          by simp only [List.append_assoc, List.append_nil], hsign, hdigits, hpoint, Or.inl hne,
          hfull⟩
      · refine (h ?_).elim
        have hunvalued := Unvalued.bareExponent (sign ++ whole ++ point) hmark hbare
        rwa [← List.append_nil (sign ++ whole ++ point ++ mark :: behind)] at hunvalued
    · rw [eq_of_beq hmark] at h
      exact (h (.imaginary _)).elim
  · rw [hexadecimals_eq] at hmem
    obtain ⟨mark, rest, hmark, -, rfl⟩ := mem_marked.mp hmem
    exact (h (.prefixed rest (Or.inl hmark))).elim
  · rw [binaries_eq] at hmem
    obtain ⟨mark, rest, hmark, -, rfl⟩ := mem_marked.mp hmem
    exact (h (.prefixed rest (Or.inr hmark))).elim

theorem mem_floats_iff_of_mem_numerals (h : text ∈ numerals) : text ∈ floats ↔ ¬ Unvalued text :=
  ⟨not_unvalued_of_mem_floats, mem_floats_of_not_unvalued h⟩

/-! ### Words -/

theorem toLower_of_isDigit {c : Char} (h : c.isDigit = true) : c.toLower = c := by
  have hdigit := toNat_of_isDigit h
  refine dif_neg fun hupper ↦ ?_
  have hletter : 65 ≤ c.toNat := UInt32.le_iff_toNat_le.mp hupper.1
  omega

/-- There is no digit in a word. -/
theorem isDigit_of_mem_words (h : text ∈ words) : ∀ c ∈ text, c.isDigit = false := by
  intro c hc
  refine Bool.eq_false_iff.mpr fun hdigit ↦ ?_
  have hlower : c ∈ text.map Char.toLower := by
    rw [← toLower_of_isDigit hdigit]
    exact List.mem_map_of_mem hc
  have hletters : ["inf".toList, "infinity".toList, "nan".toList].all
      (fun word ↦ word.all fun c ↦ !c.isDigit) = true := by decide
  have hnone := List.all_eq_true.mp (List.all_eq_true.mp hletters _ h) c hlower
  rw [hdigit] at hnone
  cases hnone

/-- There is a digit in every numeral. -/
theorem exists_isDigit_of_mem_numerals (h : text ∈ numerals) : ∃ c ∈ text, c.isDigit = true := by
  rcases h with (h | h) | h
  · obtain ⟨_, ⟨_, ⟨_, ⟨sign, -, _, ⟨_, ⟨c, hc, rfl⟩, whole, -, rfl⟩, rfl⟩, point, -, rfl⟩,
      exponent, -, rfl⟩, last, -, rfl⟩ := h
    exact ⟨c, by simp, hc⟩
  · rw [hexadecimals_eq] at h
    obtain ⟨mark, rest, -, -, rfl⟩ := mem_marked.mp h
    exact ⟨'0', List.mem_cons_self, rfl⟩
  · rw [binaries_eq] at h
    obtain ⟨mark, rest, -, -, rfl⟩ := mem_marked.mp h
    exact ⟨'0', List.mem_cons_self, rfl⟩

/-- No numeral is a word. -/
theorem mem_parsable_iff_of_mem_numerals (h : text ∈ numerals) :
    text ∈ parsable ↔ ¬ Unvalued text := by
  rw [← mem_floats_iff_of_mem_numerals h]
  refine ⟨fun hparsable ↦ hparsable.resolve_right ?_, Or.inl⟩
  rintro ⟨sign, hsign, word, hword, rfl⟩
  obtain ⟨c, hc, hdigit⟩ := exists_isDigit_of_mem_numerals h
  have hnone : c.isDigit = false := (List.mem_append.mp hc).elim
    (fun hc ↦ isDigit_of_isSign c (consistsOf_sign sign hsign c hc)) (isDigit_of_mem_words hword c)
  rw [hdigit] at hnone
  cases hnone

end Numeral

/-! ### Number tokens -/

namespace Lexer

/-- A number token is a numeral. -/
theorem Cuts.mem_numerals {g : Grammar} {c : Char} {rest left : List Char} {token : Token}
    (h : Cuts g c rest token left) (hkind : token.kind = .number) :
    token.text.toList ∈ Numeral.numerals := by
  cases h with
  | number hstart hend =>
    rw [String.toList_ofList]
    exact (Numeral.isLongest_cut (Numeral.begins_cons_iff.mpr hstart)).mem
  | identifier hstart => cases hkind
  | @symbol symbol length hpos hsymbol => cases symbol <;> cases hkind

end Lexer

namespace Grammar

/-- Whether a token of a text is reached: those before it are taken, and lead to the assembly. -/
def Reaches (g : Grammar) (text : String) (token : Token) (reached : Assembly) : Prop :=
  ∃ before behind, g.tokens text = before ++ token :: behind ∧
    before.foldlM (Assembly.take g text) .empty = .ok reached

variable {g : Grammar} {text : String} {token : Token} {reached : Assembly}

theorem Reaches.mem_numerals (h : g.Reaches text token reached) (hkind : token.kind = .number) :
    token.text.toList ∈ Numeral.numerals := by
  obtain ⟨before, behind, htokens, -⟩ := h
  have hmem : token ∈ g.tokens text := by
    rw [htokens]
    exact List.mem_append_right before List.mem_cons_self
  obtain ⟨c, rest, left, hcuts⟩ := (Lexer.runs_run g text.toList).exists_cuts hmem
  exact hcuts.mem_numerals hkind

/-- What a token that is reached is refused for is the error of the whole text. -/
theorem Reaches.compile_eq_error (h : g.Reaches text token reached) {error : CompileError}
    (hrefused : reached.take g text token = .error error) : g.compile text = .error error := by
  obtain ⟨before, behind, htokens, hread⟩ := h
  refine compile_of_foldlM_eq_error ?_
  rw [htokens, List.foldlM_append, hread]
  change reached.take g text token >>= _ = _
  rw [hrefused]
  rfl

/-- An error that a number has no value is right. -/
theorem value?_of_compile_eq_error {shown : String}
    (h : g.compile text = .error (.invalidNumber shown)) : Numeral.value? shown = none := by
  cases refusal_of_compile_eq_error h with
  | token htokens hread hrefuses =>
    cases hrefuses with
    | invalidNumber hvalue => exact hvalue
    | missingOperands h => cases h
  | missingOperands h => cases h

/-- A number token that is reached becomes a literal, and the error that it is no number is given
exactly if it is hexadecimal, binary or imaginary or has an exponent without digits. Among numerals,
these are the ones that do not denote a floating-point number. -/
theorem number_of_reaches (h : g.Reaches text token reached) (hkind : token.kind = .number) :
    (g.compile text = .error (.invalidNumber token.text) ↔
      Numeral.Unvalued token.text.toList) ∧
    (reached.take g text token = .error (.invalidNumber token.text) ↔
      Numeral.Unvalued token.text.toList) ∧
    (¬ Numeral.Unvalued token.text.toList → ∃ value, Numeral.value? token.text = some value ∧
      reached.take g text token = .ok (reached.plant (.literal value))) ∧
    (token.text.toList ∈ Numeral.parsable ↔ ¬ Numeral.Unvalued token.text.toList) := by
  have hnumeral := h.mem_numerals hkind
  have hvalue : Numeral.value? token.text = none ↔ Numeral.Unvalued token.text.toList := by
    rw [← Option.not_isSome_iff_eq_none, Numeral.isSome_value?_iff,
      Numeral.mem_floats_iff_of_mem_numerals hnumeral, not_not]
  have hnone : Numeral.value? token.text = none →
      reached.take g text token = .error (.invalidNumber token.text) := by
    intro hnone
    simp only [Assembly.take, hkind, hnone]
  have hsome (value : Float) : Numeral.value? token.text = some value →
      reached.take g text token = .ok (reached.plant (.literal value)) := by
    intro hsome
    simp only [Assembly.take, hkind, hsome]
  refine ⟨⟨fun herror ↦ ?_, fun hunvalued ↦ ?_⟩, ⟨fun herror ↦ ?_, fun hunvalued ↦ ?_⟩,
    fun hvalued ↦ ?_, Numeral.mem_parsable_iff_of_mem_numerals hnumeral⟩
  · exact hvalue.mp (value?_of_compile_eq_error herror)
  · exact h.compile_eq_error (hnone (hvalue.mpr hunvalued))
  · by_contra hvalued
    obtain ⟨value, hsomeValue⟩ := Option.ne_none_iff_exists'.mp (mt hvalue.mp hvalued)
    rw [hsome value hsomeValue] at herror
    cases herror
  · exact hnone (hvalue.mpr hunvalued)
  · obtain ⟨value, hsomeValue⟩ := Option.ne_none_iff_exists'.mp (mt hvalue.mp hvalued)
    exact ⟨value, hsomeValue, hsome value hsomeValue⟩

theorem number_of_reaches_bare_exponent :
    standard.compile "5. * 1e+ - 0b1" = .error (.invalidNumber "1e+") := by
  have hreached : ∃ reached, [⟨.number, "5."⟩, ⟨.operator, "*"⟩].foldlM
      (Assembly.take standard "5. * 1e+ - 0b1") .empty = .ok reached := ⟨_, rfl⟩
  obtain ⟨reached, hreached⟩ := hreached
  have hreach : standard.Reaches "5. * 1e+ - 0b1" ⟨.number, "1e+"⟩ reached :=
    ⟨_, [⟨.operator, "-"⟩, ⟨.number, "0b1"⟩], by decide +kernel, hreached⟩
  have hmark : Numeral.isExponentMark 'e' = true := rfl
  have hbare : ∀ c ∈ ['+'], c.isDigit = false := List.forall_mem_singleton.mpr rfl
  have hunvalued : Numeral.Unvalued "1e+".toList := .bareExponent ['1'] hmark hbare
  exact (number_of_reaches hreach rfl).1.mpr hunvalued

end Grammar

end Formulary
