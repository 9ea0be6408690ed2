import Formulary.Proofs.LongestMatch
import Formulary.Proofs.Lookahead

/-!
# The language of numerals

Numerals are the texts of a regular language (`Numeral.numerals`). In the usual notation, with `D`
for a digit, the three kinds of numerals are `[+-]?D+(\.D*)?([eE][+-]?D*)?i?`, then
`0[xX]D*([a-f][0-9a-f]*|[A-F][0-9A-F]*)?`, and `0[bB][01]*`.

Main statement: where a text starts with a digit, or with a sign and a digit, a lexer takes the
longest of its beginnings that are numerals. It is a token if the text goes on with anything but a
letter or digit, and otherwise the error shows it together with this character. No number and no
such error comes from another place.
-/

set_option autoImplicit false
set_option relaxedAutoImplicit false

namespace Formulary

open Text Cutting

open scoped Computability

namespace Numeral

/-! ### The three kinds of numerals -/

/-- Any number of digits. -/
def digits : Language Char := (oneOf Char.isDigit)∗

/-- A point that digits may follow, or nothing. -/
def fractions : Language Char := 1 + oneOf isPoint * digits

/-- An exponent mark that a sign and digits may follow, or nothing. -/
def exponents : Language Char := 1 + oneOf isExponentMark * ((1 + oneOf isSign) * digits)

/-- Decimal numerals: an optional sign, at least one digit, an optional point with digits, an
optional exponent mark with sign and digits, and an optional imaginary mark. -/
def decimals : Language Char :=
  (1 + oneOf isSign) * (oneOf Char.isDigit * digits) * fractions * exponents *
    (1 + oneOf isImaginaryMark)

/-- A letter of the class with digits and letters of the class behind it. -/
def lettersFrom (p : Char → Bool) : Language Char :=
  oneOf p * (oneOf fun c ↦ c.isDigit || p c)∗

/-- Hexadecimal numerals: a zero, a mark, digits, and, from the first letter on, digits and letters
that are all lowercase or all uppercase. -/
def hexadecimals : Language Char :=
  oneOf (· == '0') * oneOf isHexMark * digits *
    (1 + (lettersFrom isLowerHexLetter + lettersFrom isUpperHexLetter))

/-- Binary numerals: a zero, a mark, and binary digits. -/
def binaries : Language Char := oneOf (· == '0') * oneOf isBinaryMark * (oneOf isBinaryDigit)∗

/-- The texts that are numerals. -/
def numerals : Language Char := decimals + hexadecimals + binaries

/-- Whether a text starts with a digit or with a sign and a digit. -/
def Begins (text : List Char) : Prop :=
  ∃ sign digit rest, text = sign ++ digit :: rest ∧ sign ∈ 1 + oneOf isSign ∧ digit.isDigit = true

theorem begins_cons_iff {c : Char} {rest : List Char} :
    Begins (c :: rest) ↔ Lexer.startsNumber c rest = true := by
  rw [Lexer.startsNumber, Bool.or_eq_true, Bool.and_eq_true]
  constructor
  · rintro ⟨_, digit, behind, htext, rfl | ⟨sign, hsign, rfl⟩, hdigit⟩
    · cases htext
      exact Or.inl hdigit
    · cases htext
      exact Or.inr ⟨hsign, hdigit⟩
  · rintro (hdigit | ⟨hsign, hnext⟩)
    · exact ⟨[], c, rest, rfl, Or.inl rfl, hdigit⟩
    · cases rest with
      | nil => cases hnext
      | cons digit rest => exact ⟨[c], digit, rest, rfl, Or.inr ⟨c, hsign, rfl⟩, hnext⟩

/-! ### Classes of characters -/

/-- What can follow the fraction of a decimal numeral in it. -/
def isBehindFraction (c : Char) : Bool := isExponentMark c || isImaginaryMark c

/-- What can follow the whole part of a decimal numeral in it. -/
def isBehindDigits (c : Char) : Bool := isPoint c || isBehindFraction c

/-- The characters of a fraction. -/
def isFractionChar (c : Char) : Bool := isPoint c || c.isDigit

/-- The characters of an exponent. -/
def isExponentChar (c : Char) : Bool := isExponentMark c || (isSign c || c.isDigit)

/-- The characters of a decimal numeral without an imaginary mark. -/
def isFloatChar (c : Char) : Bool := isFractionChar c || isExponentChar c

/-- The characters of decimal numerals. -/
def isDecimalChar (c : Char) : Bool := isFloatChar c || isImaginaryMark c

/-- The letters among the hexadecimal digits. -/
def isHexLetter (c : Char) : Bool := isLowerHexLetter c || isUpperHexLetter c

theorem isBehindFraction_of_isExponentMark (c : Char) (h : isExponentMark c = true) :
    isBehindFraction c = true := Bool.or_inl h

theorem isBehindDigits_of_isBehindFraction (c : Char) (h : isBehindFraction c = true) :
    isBehindDigits c = true := Bool.or_inr h

theorem isFractionChar_of_isDigit (c : Char) (h : c.isDigit = true) : isFractionChar c = true :=
  Bool.or_inr h

theorem isExponentChar_of_isSign (c : Char) (h : isSign c = true) : isExponentChar c = true :=
  Bool.or_inr (Bool.or_inl h)

theorem isExponentChar_of_isDigit (c : Char) (h : c.isDigit = true) : isExponentChar c = true :=
  Bool.or_inr (Bool.or_inr h)

theorem isFloatChar_of_isFractionChar (c : Char) (h : isFractionChar c = true) :
    isFloatChar c = true := Bool.or_inl h

theorem isFloatChar_of_isExponentChar (c : Char) (h : isExponentChar c = true) :
    isFloatChar c = true := Bool.or_inr h

theorem isDecimalChar_of_isFloatChar (c : Char) (h : isFloatChar c = true) :
    isDecimalChar c = true := Bool.or_inl h

theorem isDigit_of_isSign (c : Char) (h : isSign c = true) : c.isDigit = false := by
  rcases (Bool.or_eq_true _ _).mp h with h | h <;> rw [eq_of_beq h] <;> rfl

theorem isDigit_of_isBehindDigits (c : Char) (h : isBehindDigits c = true) : c.isDigit = false := by
  simp only [isBehindDigits, isBehindFraction, isPoint, isExponentMark, isImaginaryMark,
    Bool.or_eq_true, beq_iff_eq] at h
  rcases h with rfl | (rfl | rfl) | rfl <;> rfl

theorem isFractionChar_of_isBehindFraction (c : Char) (h : isBehindFraction c = true) :
    isFractionChar c = false := by
  simp only [isBehindFraction, isExponentMark, isImaginaryMark, Bool.or_eq_true, beq_iff_eq] at h
  rcases h with (rfl | rfl) | rfl <;> rfl

theorem isExponentChar_of_isImaginaryMark (c : Char) (h : isImaginaryMark c = true) :
    isExponentChar c = false := by
  rw [eq_of_beq h]
  rfl

/-- A class that excludes another one is excluded by it. -/
theorem excludes_symm {p q : Char → Bool} (h : ∀ c, q c = true → p c = false) (c : Char)
    (hc : p c = true) : q c = false :=
  Bool.eq_false_iff.mpr fun hq ↦ Bool.false_ne_true ((h c hq).symm.trans hc)

/-! ### Decimal numerals -/

theorem munches_digits : Munches digits (many Char.isDigit) := munches_many Char.isDigit

theorem consistsOf_digits : ConsistsOf Char.isDigit digits := consistsOf_kstar fun _ ↦ id

theorem consistsOf_someDigits : ConsistsOf Char.isDigit (oneOf Char.isDigit * digits) :=
  (consistsOf_oneOf fun _ ↦ id).mul consistsOf_digits

theorem munches_sign : Munches (1 + oneOf isSign) (atMostOne isSign) := munches_atMostOne isSign

theorem munches_fraction : Munches fractions fraction := munches_digits.behind isPoint

theorem consistsOf_sign : ConsistsOf isSign (1 + oneOf isSign) :=
  consistsOf_one.add (consistsOf_oneOf fun _ ↦ id)

theorem munches_exponent : Munches exponents exponent :=
  (munches_sign.followedBy (divides_atMostOne isSign) munches_digits consistsOf_sign
    (startsIn_kstar fun _ ↦ id) isDigit_of_isSign).behind isExponentMark

theorem consistsOf_fractions : ConsistsOf isFractionChar fractions :=
  consistsOf_one.add ((consistsOf_oneOf fun _ ↦ Bool.or_inl).mul
    (consistsOf_kstar isFractionChar_of_isDigit))

theorem consistsOf_exponents : ConsistsOf isExponentChar exponents :=
  consistsOf_one.add ((consistsOf_oneOf fun _ ↦ Bool.or_inl).mul
    ((consistsOf_sign.mono isExponentChar_of_isSign).mul
      (consistsOf_kstar isExponentChar_of_isDigit)))

theorem startsIn_imaginary {p : Char → Bool} (hp : ∀ c, isImaginaryMark c = true → p c = true) :
    StartsIn p (1 + oneOf isImaginaryMark) := by
  have h : StartsIn p (1 + oneOf isImaginaryMark * 1) := startsIn_one.add (startsIn_oneOf_mul hp)
  rwa [mul_one] at h

/-- What follows the fraction. -/
theorem munches_exponent_imaginary :
    Munches (exponents * (1 + oneOf isImaginaryMark))
      (followedBy exponent (atMostOne isImaginaryMark)) :=
  munches_exponent.followedBy divides_exponent (munches_atMostOne isImaginaryMark)
    consistsOf_exponents (startsIn_imaginary fun _ ↦ id)
    (excludes_symm isExponentChar_of_isImaginaryMark)

theorem startsIn_exponent_imaginary :
    StartsIn isBehindFraction (exponents * (1 + oneOf isImaginaryMark)) :=
  (startsIn_one.add (startsIn_oneOf_mul isBehindFraction_of_isExponentMark)).mul
    (startsIn_imaginary fun _ ↦ Bool.or_inr)

theorem startsIn_fractions : StartsIn isBehindDigits fractions :=
  startsIn_one.add (startsIn_oneOf_mul fun _ ↦ Bool.or_inl)

/-- What follows the digits before the point. -/
theorem munches_behindDigits :
    Munches (fractions * (exponents * (1 + oneOf isImaginaryMark)))
      (followedBy fraction (followedBy exponent (atMostOne isImaginaryMark))) :=
  munches_fraction.followedBy divides_fraction munches_exponent_imaginary consistsOf_fractions
    startsIn_exponent_imaginary (excludes_symm isFractionChar_of_isBehindFraction)

theorem startsIn_behindDigits :
    StartsIn isBehindDigits (fractions * (exponents * (1 + oneOf isImaginaryMark))) :=
  startsIn_fractions.mul (startsIn_exponent_imaginary.mono isBehindDigits_of_isBehindFraction)

/-- Behind the sign, if there is one, a numeral that begins goes on with a digit. -/
theorem Begins.exists_digit {text : List Char} (h : Begins text) : ∃ digit rest,
    (atMostOne isSign text).2 = digit :: rest ∧ digit.isDigit = true := by
  obtain ⟨_, digit, rest, rfl, rfl | ⟨sign, hsign, rfl⟩, hdigit⟩ := h
  · refine ⟨digit, rest, ?_, hdigit⟩
    rw [List.nil_append, atMostOne, behind_of_head fun c hc ↦ ?_]
    cases hc
    exact isSign_of_isDigit hdigit
  · refine ⟨digit, rest, ?_, hdigit⟩
    rw [List.singleton_append, atMostOne, behind_cons hsign]
    rfl

theorem isLongest_decimal {text : List Char} (h : Begins text) :
    IsLongest decimals text (decimal text).1 := by
  have hassoc : decimals = (1 + oneOf isSign) * (oneOf Char.isDigit * digits *
      (fractions * (exponents * (1 + oneOf isImaginaryMark)))) := by
    simp only [decimals, mul_assoc]
  obtain ⟨digit, rest, hrest, hdigit⟩ := h.exists_digit
  have hdigits := isLongest_many_cons hdigit rest
  rw [← hrest] at hdigits
  have hbehind := hdigits.mul (divides_many Char.isDigit _) (munches_behindDigits _)
    consistsOf_someDigits startsIn_behindDigits (excludes_symm isDigit_of_isBehindDigits)
  have hstarts : StartsIn Char.isDigit (oneOf Char.isDigit * digits *
      (fractions * (exponents * (1 + oneOf isImaginaryMark)))) := by
    rw [mul_assoc]
    exact startsIn_oneOf_mul fun _ ↦ id
  rw [hassoc]
  exact (munches_sign text).mul (divides_atMostOne isSign text) hbehind consistsOf_sign hstarts
    isDigit_of_isSign

/-! ### Hexadecimal and binary numerals -/

theorem toNat_of_isLowerHexLetter {c : Char} (h : isLowerHexLetter c = true) :
    97 ≤ c.toNat ∧ c.toNat ≤ 102 := by
  obtain ⟨hfrom, hto⟩ := (Bool.and_eq_true _ _).mp h
  exact ⟨UInt32.le_iff_toNat_le.mp (of_decide_eq_true hfrom),
    UInt32.le_iff_toNat_le.mp (of_decide_eq_true hto)⟩

theorem toNat_of_isUpperHexLetter {c : Char} (h : isUpperHexLetter c = true) :
    65 ≤ c.toNat ∧ c.toNat ≤ 70 := by
  obtain ⟨hfrom, hto⟩ := (Bool.and_eq_true _ _).mp h
  exact ⟨UInt32.le_iff_toNat_le.mp (of_decide_eq_true hfrom),
    UInt32.le_iff_toNat_le.mp (of_decide_eq_true hto)⟩

theorem isUpperHexLetter_of_isLowerHexLetter (c : Char) (h : isLowerHexLetter c = true) :
    isUpperHexLetter c = false := by
  refine Bool.eq_false_iff.mpr fun hupper ↦ ?_
  have hlow := toNat_of_isLowerHexLetter h
  have hhigh := toNat_of_isUpperHexLetter hupper
  omega

theorem isHexLetter_of_isDigit (c : Char) (h : c.isDigit = true) : isHexLetter c = false := by
  have hdigit := toNat_of_isDigit h
  refine Bool.eq_false_iff.mpr fun hletter ↦ ?_
  rcases (Bool.or_eq_true _ _).mp hletter with hlower | hupper
  · have hrange := toNat_of_isLowerHexLetter hlower
    omega
  · have hrange := toNat_of_isUpperHexLetter hupper
    omega

/-- Where a letter of the class stands, the digits and letters of the class are the longest text. -/
theorem isLongest_lettersFrom {p : Char → Bool} {text : List Char}
    (h : text.head?.any p = true) :
    IsLongest (lettersFrom p) text (many (fun c ↦ c.isDigit || p c) text).1 := by
  cases text with
  | nil => cases h
  | cons c rest =>
    have hp : p c = true := h
    have hc : (c.isDigit || p c) = true := by rw [hp, Bool.or_true]
    rw [many, List.takeWhile_cons_of_pos (p := fun c ↦ c.isDigit || p c) hc]
    exact (munches_many _ rest).cons hp

theorem munches_hexLetters :
    Munches (1 + (lettersFrom isLowerHexLetter + lettersFrom isUpperHexLetter)) hexLetters := by
  intro text
  by_cases hlower : text.head?.any isLowerHexLetter = true
  · have hlongest := isLongest_lettersFrom hlower
    rw [hexLetters_of_lower hlower]
    refine hlongest.of_le (Or.inr (Or.inl hlongest.mem)) ?_
    rintro other (rfl | hother | hother) hbegins
    · exact Or.inr (Nat.zero_le _)
    · exact Or.inl hother
    · have hupper := any_head?_of_isPrefix hother hbegins
      obtain ⟨c, hc, hlower⟩ := (Option.any_eq_true _ _).mp hlower
      rw [Option.mem_def.mp hc, Option.any_some,
        isUpperHexLetter_of_isLowerHexLetter c hlower] at hupper
      cases hupper
  · by_cases hupper : text.head?.any isUpperHexLetter = true
    · have hlongest := isLongest_lettersFrom hupper
      rw [hexLetters_of_upper hlower hupper]
      refine hlongest.of_le (Or.inr (Or.inr hlongest.mem)) ?_
      rintro other (rfl | hother | hother) hbegins
      · exact Or.inr (Nat.zero_le _)
      · exact absurd (any_head?_of_isPrefix hother hbegins) hlower
      · exact Or.inl hother
    · rw [hexLetters_of_neither hlower hupper]
      refine (munches_nothing text).of_le (Or.inl rfl) ?_
      rintro other (hother | hother | hother) hbegins
      · exact Or.inl hother
      · exact absurd (any_head?_of_isPrefix hother hbegins) hlower
      · exact absurd (any_head?_of_isPrefix hother hbegins) hupper

theorem munches_hexDigits :
    Munches (digits * (1 + (lettersFrom isLowerHexLetter + lettersFrom isUpperHexLetter)))
      hexDigits := by
  have hletters : StartsIn isHexLetter
      (lettersFrom isLowerHexLetter + lettersFrom isUpperHexLetter) :=
    (startsIn_oneOf_mul fun _ ↦ Bool.or_inl).add (startsIn_oneOf_mul fun _ ↦ Bool.or_inr)
  exact munches_digits.followedBy (divides_many Char.isDigit) munches_hexLetters consistsOf_digits
    (startsIn_one.add hletters) isHexLetter_of_isDigit

/-- A numeral with a mark behind its first character. -/
theorem mem_marked {p : Char → Bool} {language : Language Char} {text : List Char} :
    text ∈ oneOf (· == '0') * (oneOf p * language) ↔
      ∃ mark rest, p mark = true ∧ rest ∈ language ∧ text = '0' :: mark :: rest := by
  simp only [mem_oneOf_mul, beq_iff_eq]
  constructor
  · rintro ⟨_, _, rfl, ⟨mark, rest, hmark, hrest, rfl⟩, rfl⟩
    exact ⟨mark, rest, hmark, hrest, rfl⟩
  · rintro ⟨mark, rest, hmark, hrest, rfl⟩
    exact ⟨'0', _, rfl, ⟨mark, rest, hmark, hrest, rfl⟩, rfl⟩

theorem hexadecimals_eq : hexadecimals = oneOf (· == '0') * (oneOf isHexMark *
    (digits * (1 + (lettersFrom isLowerHexLetter + lettersFrom isUpperHexLetter)))) := by
  simp only [hexadecimals, mul_assoc]

theorem binaries_eq :
    binaries = oneOf (· == '0') * (oneOf isBinaryMark * (oneOf isBinaryDigit)∗) :=
  mul_assoc _ _ _

theorem consistsOf_decimals : ConsistsOf isDecimalChar decimals := by
  have hsign : ConsistsOf isFloatChar (1 + oneOf isSign) :=
    (consistsOf_sign.mono isExponentChar_of_isSign).mono isFloatChar_of_isExponentChar
  have hwhole : ConsistsOf isFloatChar (oneOf Char.isDigit * digits) :=
    (consistsOf_someDigits.mono isFractionChar_of_isDigit).mono isFloatChar_of_isFractionChar
  have hfraction := consistsOf_fractions.mono isFloatChar_of_isFractionChar
  have hexponent := consistsOf_exponents.mono isFloatChar_of_isExponentChar
  exact ((((hsign.mul hwhole).mul hfraction).mul hexponent).mono isDecimalChar_of_isFloatChar).mul
    (consistsOf_one.add (consistsOf_oneOf fun _ ↦ Bool.or_inr))

/-- A beginning in which the second character of the text does not occur is that short. -/
theorem length_le_one_of_isPrefix {p : Char → Bool} {language : Language Char}
    (hlanguage : ConsistsOf p language) {first second : Char} (hsecond : p second = false)
    {rest taken : List Char} (hmem : taken ∈ language)
    (hbegins : taken <+: first :: second :: rest) : taken.length ≤ 1 := by
  obtain _ | ⟨c, _ | ⟨other, taken⟩⟩ := taken
  · exact Nat.zero_le 1
  · exact Nat.le_refl 1
  · obtain ⟨-, hbegins⟩ := List.cons_prefix_cons.mp hbegins
    obtain ⟨rfl, -⟩ := List.cons_prefix_cons.mp hbegins
    have hother := hlanguage _ hmem other (by simp)
    rw [hsecond] at hother
    cases hother

/-- A text with a marked numeral in front has the mark behind a zero. -/
theorem exists_mark_of_isPrefix {p : Char → Bool} {language : Language Char}
    {text taken : List Char} (hmem : taken ∈ oneOf (· == '0') * (oneOf p * language))
    (hbegins : taken <+: text) : ∃ mark rest, text = '0' :: mark :: rest ∧ p mark = true := by
  obtain ⟨mark, rest, hmark, -, rfl⟩ := mem_marked.mp hmem
  obtain ⟨behind, rfl⟩ := hbegins
  exact ⟨mark, rest ++ behind, rfl, hmark⟩

theorem isBinaryMark_of_isHexMark {c : Char} (h : isHexMark c = true) : isBinaryMark c = false := by
  rcases (Bool.or_eq_true _ _).mp h with h | h <;> rw [eq_of_beq h] <;> rfl

/-- Behind a zero and a mark of another kind, no decimal numeral goes on. -/
theorem length_le_of_mem_decimals {mark : Char} (hmark : isDecimalChar mark = false)
    {rest other taken : List Char} (hother : other ∈ decimals)
    (hbegins : other <+: '0' :: mark :: rest) :
    other.length ≤ ('0' :: mark :: taken).length :=
  (length_le_one_of_isPrefix consistsOf_decimals hmark hother hbegins).trans (by simp)

theorem isLongest_cut_of_isHexMark {mark : Char} (h : isHexMark mark = true) (rest : List Char) :
    IsLongest numerals ('0' :: mark :: rest) (cut ('0' :: mark :: rest)).1 := by
  have hlongest : IsLongest hexadecimals ('0' :: mark :: rest)
      ('0' :: mark :: (hexDigits rest).1) := by
    rw [hexadecimals_eq]
    exact ((munches_hexDigits rest).cons h).cons rfl
  have hdecimal : isDecimalChar mark = false := by
    rcases (Bool.or_eq_true _ _).mp h with h | h <;> rw [eq_of_beq h] <;> rfl
  rw [cut_of_isHexMark h]
  refine hlongest.of_le (Or.inl (Or.inr hlongest.mem)) ?_
  rintro other ((hother | hother) | hother) hbegins
  · exact Or.inr (length_le_of_mem_decimals hdecimal hother hbegins)
  · exact Or.inl hother
  · rw [binaries_eq] at hother
    obtain ⟨_, _, htext, hbinary⟩ := exists_mark_of_isPrefix hother hbegins
    cases htext
    rw [isBinaryMark_of_isHexMark h] at hbinary
    cases hbinary

theorem isLongest_cut_of_isBinaryMark {mark : Char} (h : isBinaryMark mark = true)
    (hhex : ¬ isHexMark mark = true) (rest : List Char) :
    IsLongest numerals ('0' :: mark :: rest) (cut ('0' :: mark :: rest)).1 := by
  have hlongest : IsLongest binaries ('0' :: mark :: rest)
      ('0' :: mark :: (binaryDigits rest).1) := by
    rw [binaries_eq]
    exact ((munches_many isBinaryDigit rest).cons h).cons rfl
  have hdecimal : isDecimalChar mark = false := by
    rcases (Bool.or_eq_true _ _).mp h with h | h <;> rw [eq_of_beq h] <;> rfl
  rw [cut_of_isBinaryMark hhex h]
  refine hlongest.of_le (Or.inr hlongest.mem) ?_
  rintro other ((hother | hother) | hother) hbegins
  · exact Or.inr (length_le_of_mem_decimals hdecimal hother hbegins)
  · rw [hexadecimals_eq] at hother
    obtain ⟨_, _, htext, hmark⟩ := exists_mark_of_isPrefix hother hbegins
    cases htext
    exact absurd hmark hhex
  · exact Or.inl hother

/-- Where a numeral begins, the longest text that is a numeral is cut off. -/
theorem isLongest_cut {text : List Char} (h : Begins text) :
    IsLongest numerals text (cut text).1 := by
  by_cases hhex : ∃ mark rest, text = '0' :: mark :: rest ∧ isHexMark mark = true
  · obtain ⟨mark, rest, rfl, hmark⟩ := hhex
    exact isLongest_cut_of_isHexMark hmark rest
  · by_cases hbinary : ∃ mark rest, text = '0' :: mark :: rest ∧ isBinaryMark mark = true
    · obtain ⟨mark, rest, rfl, hmark⟩ := hbinary
      exact isLongest_cut_of_isBinaryMark hmark (fun hother ↦ hhex ⟨mark, rest, rfl, hother⟩) rest
    · have hlongest := isLongest_decimal h
      rw [Written.cut_eq_decimal fun mark rest htext ↦
        ⟨Bool.eq_false_iff.mpr fun hmark ↦ hhex ⟨mark, rest, htext, hmark⟩,
          Bool.eq_false_iff.mpr fun hmark ↦ hbinary ⟨mark, rest, htext, hmark⟩⟩]
      refine hlongest.of_le (Or.inl (Or.inl hlongest.mem)) ?_
      rintro other ((hother | hother) | hother) hbegins
      · exact Or.inl hother
      · rw [hexadecimals_eq] at hother
        exact absurd (exists_mark_of_isPrefix hother hbegins) hhex
      · rw [binaries_eq] at hother
        exact absurd (exists_mark_of_isPrefix hother hbegins) hbinary

end Numeral

/-! ### Where numerals are cut off -/

namespace Lexer

variable {g : Grammar} {c : Char} {rest : List Char}

theorem cutNumber_of_isAlphanum {other : Char}
    (hother : other ∈ (Numeral.cut (c :: rest)).2.head?) (hletter : other.isAlphanum = true) :
    cutNumber (c :: rest) =
      .error (.badNumberSyntax (String.ofList ((Numeral.cut (c :: rest)).1 ++ [other]))) := by
  have hsome : (Numeral.cut (c :: rest)).2.head?.filter Char.isAlphanum = some other := by
    rw [Option.mem_def.mp hother, Option.filter_some, if_pos hletter]
  simp only [cutNumber, hsome]

/-- A number is cut off only where a numeral begins. -/
theorem Cuts.begins {token : Token} {left : List Char} (h : Cuts g c rest token left)
    (hkind : token.kind = .number) : Numeral.Begins (c :: rest) := by
  cases h with
  | number hstart hend => exact Numeral.begins_cons_iff.mpr hstart
  | identifier hstart => cases hkind
  | @symbol symbol length hpos hsymbol => cases symbol <;> cases hkind

/-- An error that shows a numeral is met only where one begins. -/
theorem begins_of_cutToken_eq_error {shown : String}
    (h : cutToken g c rest = .error (.badNumberSyntax shown)) : Numeral.Begins (c :: rest) := by
  rw [cutToken] at h
  split at h
  · rename_i hstart
    exact Numeral.begins_cons_iff.mpr hstart
  · split at h
    · cases h
    · split at h
      · rw [cutSymbol] at h
        split at h <;> cases h
      · cases h

/-- Where a numeral begins in front of the lexer, the longest text that is a numeral is the next
token. If it runs into a letter or digit, this is an error, which shows it with that character.
Number tokens and errors of this kind come from nowhere else. -/
theorem munches_numerals (g : Grammar) (lexer : Lexer) :
    (Numeral.Begins lexer.ahead → ∃ numeral left, lexer.ahead = numeral ++ left ∧
      IsLongest Numeral.numerals lexer.ahead numeral ∧
      (∀ c ∈ left.head?, c.isAlphanum = true → next g lexer =
        (some (.error (.badNumberSyntax (String.ofList (numeral ++ [c])))), .exhausted)) ∧
      ((∀ c ∈ left.head?, c.isAlphanum = false) →
        next g lexer = (some (.ok ⟨.number, String.ofList numeral⟩), .reading left))) ∧
    (∀ token behind, next g lexer = (some (.ok token), behind) → token.kind = .number →
      Numeral.Begins lexer.ahead) ∧
    ∀ shown behind, next g lexer = (some (.error (.badNumberSyntax shown)), behind) →
      Numeral.Begins lexer.ahead := by
  refine ⟨fun hbegins ↦ ?_, fun token behind hnext hkind ↦ ?_, fun shown behind hnext ↦ ?_⟩
  · obtain ⟨c, rest, hahead⟩ : ∃ c rest, lexer.ahead = c :: rest := by
      obtain ⟨_, digit, rest, htext, rfl | ⟨sign, -, rfl⟩, -⟩ := hbegins
      · exact ⟨digit, rest, htext⟩
      · exact ⟨sign, digit :: rest, htext⟩
    rw [hahead] at hbegins ⊢
    have hcut : cutToken g c rest = cutNumber (c :: rest) :=
      if_pos (Numeral.begins_cons_iff.mp hbegins)
    refine ⟨_, _, (Numeral.divides_cut (c :: rest)).symm, Numeral.isLongest_cut hbegins,
      fun other hother hletter ↦ ?_, fun hend ↦ ?_⟩
    · exact next_of_cutToken_eq_error hahead (hcut.trans (cutNumber_of_isAlphanum hother hletter))
    · exact next_of_cutToken_eq_ok hahead (hcut.trans (cutNumber_of_cut rfl hend))
  · obtain ⟨c, rest, hahead, hcut⟩ := exists_cutToken_of_next hnext
    rw [hahead]
    cases hresult : cutToken g c rest with
    | error error =>
      rw [hresult] at hcut
      cases hcut
    | ok cut =>
      rw [hresult] at hcut
      cases hcut
      exact (cuts_of_cutToken_eq_ok hresult).begins hkind
  · obtain ⟨c, rest, hahead, hcut⟩ := exists_cutToken_of_next hnext
    rw [hahead]
    cases hresult : cutToken g c rest with
    | error error =>
      rw [hresult] at hcut
      cases hcut
      exact begins_of_cutToken_eq_error hresult
    | ok cut =>
      rw [hresult] at hcut
      cases hcut

theorem munches_numerals_mixed_case :
    IsLongest Numeral.numerals "0xAbE".toList "0xA".toList ∧
      next .standard (.ofText " 0xAbE") =
        (some (.error (.badNumberSyntax "0xAb")), .exhausted) := by
  have hahead : (ofText " 0xAbE").ahead = "0xAbE".toList := by decide
  have hbegins : Numeral.Begins (ofText " 0xAbE").ahead :=
    ⟨[], '0', "xAbE".toList, hahead, Or.inl rfl, rfl⟩
  have hnext : next .standard (.ofText " 0xAbE") =
      (some (.error (.badNumberSyntax "0xAb")), .exhausted) := by decide +kernel
  refine ⟨?_, hnext⟩
  obtain ⟨numeral, left, -, hlongest, hruns, hends⟩ :=
    (munches_numerals .standard (.ofText " 0xAbE")).1 hbegins
  by_cases hend : ∀ c ∈ left.head?, c.isAlphanum = false
  · rw [hends hend] at hnext
    cases hnext
  · push Not at hend
    obtain ⟨c, hc, hletter⟩ := hend
    have herror := (hruns c hc (Bool.ne_false_iff.mp hletter)).symm.trans hnext
    have hshown : numeral ++ [c] = "0xA".toList ++ ['b'] := by
      simpa using congrArg String.toList (LexError.badNumberSyntax.inj
        (Except.error.inj (Option.some.inj (Prod.ext_iff.mp herror).1)))
    rw [hahead, (List.append_inj' hshown rfl).1] at hlongest
    exact hlongest

end Lexer

end Formulary
