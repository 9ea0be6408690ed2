import Formulary.Numeral

/-!
# The value of a numeral

A decimal numeral stands for a rational number, a whole number of digits shifted by a power of ten
(`Decimal`), and its value is the floating-point number nearest to it. A numeral has no value when
it is hexadecimal, binary or imaginary, or when its exponent has no digits: then `Numeral.value?` is
`none`.
-/

set_option autoImplicit false
set_option relaxedAutoImplicit false

namespace Formulary.Numeral

open Text Cutting

/-- A decimal number as it is written: its sign, the digits before and after the point, and the
exponent. -/
structure Decimal where
  negative : Bool
  whole : List Char
  fraction : List Char
  exponent : Int
  deriving DecidableEq

/-- The number that a list of digits denotes. -/
def natOfDigits (digits : List Char) : Nat :=
  digits.foldl (fun n c ↦ 10 * n + (c.toNat - '0'.toNat)) 0

namespace Decimal

/-- Reads what follows the digits of a decimal number: nothing, or an exponent with digits. -/
def readExponent? : List Char → Option Int
  | [] => some 0
  | mark :: rest =>
    let (sign, rest) := atMostOne isSign rest
    let (digits, rest) := many Char.isDigit rest
    if isExponentMark mark && !digits.isEmpty && rest.isEmpty then
      if sign == ['-'] then some (-natOfDigits digits) else some (natOfDigits digits)
    else none

/-- Reads a decimal number: an optional sign, digits with an optional point before, among or after
them, and an optional exponent. -/
def read? (text : List Char) : Option Decimal :=
  let (sign, rest) := atMostOne isSign text
  let (whole, rest) := many Char.isDigit rest
  let (point, rest) := Numeral.fraction rest
  let fraction := point.drop 1
  if whole.isEmpty && fraction.isEmpty then none
  else (readExponent? rest).map fun exponent ↦ ⟨sign == ['-'], whole, fraction, exponent⟩

/-- The floating-point number nearest to the absolute value of the number. Numbers of at least
`10 ^ 310` round to infinity and numbers below `10 ^ (-330)` round to zero, so powers of ten beyond
that are never computed. -/
def absToFloat (d : Decimal) : Float :=
  let digits := (d.whole ++ d.fraction).dropWhile (· == '0')
  let shift := d.exponent - d.fraction.length
  let magnitude := digits.length + shift
  if digits.isEmpty || magnitude < -330 then 0.0
  else if 310 < magnitude then 1.0 / 0.0
  else Float.ofScientific (natOfDigits digits) (shift < 0) shift.natAbs

/-- The floating-point number nearest to the number. The sign of zero is kept. -/
def toFloat (d : Decimal) : Float := if d.negative then -d.absToFloat else d.absToFloat

end Decimal

/-- The value of a numeral, if it has one. -/
def value? (numeral : String) : Option Float :=
  (Decimal.read? numeral.toList).map Decimal.toFloat

end Formulary.Numeral
