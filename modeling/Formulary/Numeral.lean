import Formulary.Text.Cutting

/-!
# Numerals

A numeral is cut off the front of a text by taking as much as its grammar allows (`Numeral.cut`).

There are three kinds of numerals. Decimal ones have an optional sign, digits, an optional point
with digits, an optional exponent mark with sign and digits, and an optional `i`. Hexadecimal ones
start with `0x` or `0X`; the first letter among the digits decides whether the letters are lowercase
or uppercase. Binary ones start with `0b` or `0B`. The last two have no sign, and not every numeral
has a value: `Numeral.value?` decides that.
-/

set_option autoImplicit false
set_option relaxedAutoImplicit false

namespace Formulary.Numeral

open Text Cutting

/-! ### Character classes -/

/-- The two signs. -/
def isSign (c : Char) : Bool := c == '+' || c == '-'

/-- The decimal point. -/
def isPoint (c : Char) : Bool := c == '.'

/-- The marks that introduce an exponent. -/
def isExponentMark (c : Char) : Bool := c == 'e' || c == 'E'

/-- The mark of an imaginary number. -/
def isImaginaryMark (c : Char) : Bool := c == 'i'

/-- The marks that follow the leading zero of a hexadecimal numeral. -/
def isHexMark (c : Char) : Bool := c == 'x' || c == 'X'

/-- The marks that follow the leading zero of a binary numeral. -/
def isBinaryMark (c : Char) : Bool := c == 'b' || c == 'B'

/-- The binary digits. -/
def isBinaryDigit (c : Char) : Bool := c == '0' || c == '1'

/-- The lowercase letters among the hexadecimal digits. -/
def isLowerHexLetter (c : Char) : Bool := 'a' ≤ c && c ≤ 'f'

/-- The uppercase letters among the hexadecimal digits. -/
def isUpperHexLetter (c : Char) : Bool := 'A' ≤ c && c ≤ 'F'

/-! ### The three kinds of numerals -/

/-- A point and the digits behind it. -/
def fraction : Cutting := behind isPoint (many Char.isDigit)

/-- An exponent mark, a sign and digits; sign and digits may be missing. -/
def exponent : Cutting :=
  behind isExponentMark (followedBy (atMostOne isSign) (many Char.isDigit))

/-- A decimal numeral. -/
def decimal : Cutting :=
  followedBy (atMostOne isSign) <| followedBy (many Char.isDigit) <| followedBy fraction <|
    followedBy exponent (atMostOne isImaginaryMark)

/-- Hexadecimal letters of one case, mixed with digits, from the first letter on. -/
def hexLetters : Cutting := fun text ↦
  if text.head?.any isLowerHexLetter then
    many (fun c ↦ c.isDigit || isLowerHexLetter c) text
  else if text.head?.any isUpperHexLetter then
    many (fun c ↦ c.isDigit || isUpperHexLetter c) text
  else nothing text

/-- The hexadecimal digits behind the mark. The first letter selects the case of all others. -/
def hexDigits : Cutting := followedBy (many Char.isDigit) hexLetters

/-- The binary digits behind the mark. -/
def binaryDigits : Cutting := many isBinaryDigit

/-- Cuts a numeral off a text that starts with one. -/
def cut : Cutting
  | '0' :: mark :: rest =>
    if isHexMark mark then
      ('0' :: mark :: (hexDigits rest).1, (hexDigits rest).2)
    else if isBinaryMark mark then
      ('0' :: mark :: (binaryDigits rest).1, (binaryDigits rest).2)
    else
      decimal ('0' :: mark :: rest)
  | text => decimal text

/-! ### What is taken and what is left are the text -/

theorem divides_decimal : Divides decimal :=
  (divides_atMostOne _).followedBy <| (divides_many _).followedBy <|
    ((divides_many _).behind _).followedBy <|
      (((divides_atMostOne _).followedBy (divides_many _)).behind _).followedBy
        (divides_atMostOne _)

theorem divides_hexLetters : Divides hexLetters := by
  intro text
  unfold hexLetters
  split
  · exact divides_many _ text
  · split
    · exact divides_many _ text
    · exact divides_nothing text

theorem divides_hexDigits : Divides hexDigits := (divides_many _).followedBy divides_hexLetters

theorem divides_cut : Divides cut := by
  intro text
  unfold cut
  split
  · rename_i mark rest
    split
    · simp [divides_hexDigits rest]
    · split
      · simp [binaryDigits, divides_many isBinaryDigit rest]
      · exact divides_decimal _
  · exact divides_decimal _

/-! ### A numeral that is there takes a character -/

theorem length_decimal_lt {c : Char} {rest : List Char}
    (h : c.isDigit = true ∨ isSign c = true) :
    (decimal (c :: rest)).2.length < (c :: rest).length := by
  have htext := divides_decimal (c :: rest)
  have htaken : (decimal (c :: rest)).1 ≠ [] := by
    rcases h with h | h
    · by_cases hsign : isSign c = true
      · simp [decimal, followedBy, atMostOne, behind, hsign]
      · simp [decimal, followedBy, atMostOne, behind, nothing, many, hsign, h]
    · simp [decimal, followedBy, atMostOne, behind, h]
  have hlength := congrArg List.length htext
  have := List.length_pos_iff.mpr htaken
  simp only [List.length_append] at hlength
  omega

/-- Assumes: the text starts with a digit or a sign. Cutting the numeral off makes it shorter. -/
theorem length_cut_lt {c : Char} {rest : List Char} (h : c.isDigit = true ∨ isSign c = true) :
    (cut (c :: rest)).2.length < (c :: rest).length := by
  have htext := divides_cut (c :: rest)
  revert htext
  unfold cut
  split
  · rename_i mark tail heq
    split
    · intro htext
      have := congrArg List.length htext
      simp only [List.length_append, List.length_cons] at this ⊢
      omega
    · split
      · intro htext
        have := congrArg List.length htext
        simp only [List.length_append, List.length_cons] at this ⊢
        omega
      · intro _
        rw [← heq]
        exact length_decimal_lt h
  · intro _
    exact length_decimal_lt h

end Formulary.Numeral
