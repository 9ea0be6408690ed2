import Formulary.Numeral.Value
import Formulary.Proofs.Spacing

/-!
# Decimal numerals

A decimal numeral is written as an optional sign, digits, an optional point with digits behind it,
and an optional exponent (`Numeral.Written`). The number that it denotes is read off these parts
(`Numeral.Written.decimal`).

Main statements: where the text ends or goes on with whitespace, exactly the numeral is cut off
(`Numeral.Written.cut_append`), and its value is the floating-point number nearest to the number
that it denotes (`Numeral.Written.value?_text`).
-/

set_option autoImplicit false
set_option relaxedAutoImplicit false

namespace Formulary.Numeral

open Text Cutting

/-! ### The parts of a numeral -/

/-- A sign, which may be missing. -/
inductive Sign
  | missing
  | plus
  | minus
  deriving DecidableEq

/-- The sign as it is written. -/
def Sign.chars : Sign → List Char
  | .missing => []
  | .plus => ['+']
  | .minus => ['-']

/-- An exponent as it is written: a mark, a sign, and at least one digit. -/
structure WrittenExponent where
  mark : Char
  sign : Sign
  digits : List Char
  mark_eq : mark = 'e' ∨ mark = 'E'
  digits_ne_nil : digits ≠ []
  digits_isDigit : ∀ c ∈ digits, c.isDigit = true

namespace WrittenExponent

/-- The characters of an exponent. -/
def chars (exponent : WrittenExponent) : List Char :=
  exponent.mark :: (exponent.sign.chars ++ exponent.digits)

/-- The number that an exponent denotes. -/
def value (exponent : WrittenExponent) : Int :=
  match exponent.sign with
  | .minus => -natOfDigits exponent.digits
  | _ => natOfDigits exponent.digits

end WrittenExponent

/-- A decimal numeral as it is written: a sign, at least one digit, a point that digits may follow,
and an exponent. Sign, point and exponent may be missing. -/
structure Written where
  sign : Sign
  whole : List Char
  fraction : Option (List Char)
  exponent : Option WrittenExponent
  whole_ne_nil : whole ≠ []
  whole_isDigit : ∀ c ∈ whole, c.isDigit = true
  fraction_isDigit : ∀ digits ∈ fraction, ∀ c ∈ digits, c.isDigit = true

namespace Written

/-- The point and the digits behind it. -/
def fractionChars (numeral : Written) : List Char :=
  match numeral.fraction with
  | none => []
  | some digits => '.' :: digits

/-- The characters of the exponent. -/
def exponentChars (numeral : Written) : List Char :=
  match numeral.exponent with
  | none => []
  | some exponent => exponent.chars

/-- The characters of a numeral. -/
def chars (numeral : Written) : List Char :=
  numeral.sign.chars ++ (numeral.whole ++ (numeral.fractionChars ++ numeral.exponentChars))

/-- The text of a numeral. -/
def text (numeral : Written) : String := String.ofList numeral.chars

/-- The number that a numeral denotes. -/
def decimal (numeral : Written) : Decimal :=
  ⟨numeral.sign = .minus, numeral.whole, numeral.fraction.getD [],
    (numeral.exponent.map WrittenExponent.value).getD 0⟩

/-- The floating-point number nearest to the number that a numeral denotes. -/
def value (numeral : Written) : Float := numeral.decimal.toFloat

end Written

/-! ### Whitespace belongs to no part -/

section Whitespace

variable {c : Char} (h : isWhitespace c = true)
include h

theorem beq_of_isWhitespace {other : Char} (hother : isWhitespace other = false) :
    (c == other) = false := by
  refine beq_eq_false_iff_ne.mpr ?_
  rintro rfl
  rw [h] at hother
  cases hother

theorem isDigit_of_isWhitespace : c.isDigit = false := by
  have hletter := isAlphanum_of_isWhitespace h
  simp only [Char.isAlphanum, Bool.or_eq_false_iff] at hletter
  exact hletter.2

theorem isSign_of_isWhitespace : isSign c = false := by
  rw [isSign, beq_of_isWhitespace h (by decide), beq_of_isWhitespace h (by decide), Bool.or_self]

theorem isPoint_of_isWhitespace : isPoint c = false := beq_of_isWhitespace h (by decide)

theorem isExponentMark_of_isWhitespace : isExponentMark c = false := by
  rw [isExponentMark, beq_of_isWhitespace h (by decide), beq_of_isWhitespace h (by decide),
    Bool.or_self]

theorem isImaginaryMark_of_isWhitespace : isImaginaryMark c = false :=
  beq_of_isWhitespace h (by decide)

theorem isBinaryDigit_of_isWhitespace : isBinaryDigit c = false := by
  rw [isBinaryDigit, beq_of_isWhitespace h (by decide), beq_of_isWhitespace h (by decide),
    Bool.or_self]

theorem isHexMark_of_isWhitespace : isHexMark c = false := by
  rw [isHexMark, beq_of_isWhitespace h (by decide), beq_of_isWhitespace h (by decide), Bool.or_self]

theorem isBinaryMark_of_isWhitespace : isBinaryMark c = false := by
  rw [isBinaryMark, beq_of_isWhitespace h (by decide), beq_of_isWhitespace h (by decide),
    Bool.or_self]

/-- A class between two characters that are no whitespace and have none between them. -/
theorem between_of_isWhitespace {first last : Char} (hfirst : 32 < first.toNat)
    (hlast : last.toNat ≤ 127) : (decide (first ≤ c) && decide (c ≤ last)) = false := by
  have hspace := toNat_of_isWhitespace h
  have hfrom : first ≤ c ↔ first.toNat ≤ c.toNat := UInt32.le_iff_toNat_le
  have hto : c ≤ last ↔ c.toNat ≤ last.toNat := UInt32.le_iff_toNat_le
  rw [← Bool.decide_and, decide_eq_false_iff_not, hfrom, hto]
  omega

theorem isLowerHexLetter_of_isWhitespace : isLowerHexLetter c = false :=
  between_of_isWhitespace h (by decide) (by decide)

theorem isUpperHexLetter_of_isWhitespace : isUpperHexLetter c = false :=
  between_of_isWhitespace h (by decide) (by decide)

end Whitespace

/-! ### Cutting the parts off -/

/-- Assumes: two classes without a common character. A text that starts in the one does not start in
the other. -/
theorem head_of_head {p q : Char → Bool} (hpq : ∀ c, p c = true → q c = false) {text : List Char}
    (h : ∀ c ∈ text.head?, p c = true) : ∀ c ∈ text.head?, q c = false :=
  fun c hc ↦ hpq c (h c hc)

theorem isSign_of_isDigit {c : Char} (h : c.isDigit = true) : isSign c = false :=
  isSign_of_isAlphanum (by simp [Char.isAlphanum, h])

/-- A sign is cut off a text that goes on with a digit. -/
theorem atMostOne_isSign_append (sign : Sign) {digits : List Char} (hne : digits ≠ [])
    (hdigits : ∀ c ∈ digits, c.isDigit = true) (rest : List Char) :
    atMostOne isSign (sign.chars ++ (digits ++ rest)) = (sign.chars, digits ++ rest) := by
  cases sign with
  | missing =>
    refine behind_of_head ?_ nothing
    cases digits with
    | nil => exact (hne rfl).elim
    | cons c digits =>
      intro other hother
      cases hother
      exact isSign_of_isDigit (hdigits c List.mem_cons_self)
  | plus => rfl
  | minus => rfl

namespace WrittenExponent

variable (exponent : WrittenExponent)

theorem isExponentMark_mark : isExponentMark exponent.mark = true := by
  rcases exponent.mark_eq with h | h <;> rw [h] <;> rfl

/-- An exponent is cut off a text that does not go on with a digit. -/
theorem exponent_append {rest : List Char} (hrest : ∀ c ∈ rest.head?, c.isDigit = false) :
    Numeral.exponent (exponent.chars ++ rest) = (exponent.chars, rest) := by
  have hdigits : many Char.isDigit (exponent.digits ++ rest) = (exponent.digits, rest) :=
    many_append exponent.digits_isDigit hrest
  have hsign := atMostOne_isSign_append exponent.sign exponent.digits_ne_nil
    exponent.digits_isDigit rest
  rw [Numeral.exponent, chars, List.cons_append, behind_cons exponent.isExponentMark_mark,
    List.append_assoc, followedBy_eq hsign hdigits]

/-- An exponent that is alone is read as the number that it denotes. -/
theorem readExponent?_chars : Decimal.readExponent? exponent.chars = some exponent.value := by
  have hdigits : many Char.isDigit exponent.digits = (exponent.digits, []) := by
    have h : many Char.isDigit (exponent.digits ++ []) = (exponent.digits, []) :=
      many_append exponent.digits_isDigit (fun c hc ↦ by cases hc)
    rwa [List.append_nil] at h
  have hsign := atMostOne_isSign_append exponent.sign exponent.digits_ne_nil
    exponent.digits_isDigit []
  rw [List.append_nil] at hsign
  have hsome : exponent.digits.isEmpty = false := by
    simpa using exponent.digits_ne_nil
  simp only [chars, Decimal.readExponent?, hsign, hdigits, isExponentMark_mark, hsome, value]
  cases exponent.sign <;> simp [Sign.chars]

end WrittenExponent

namespace Written

variable (numeral : Written) {rest : List Char}

/-- What can follow the whole part of a numeral: the rest of the numeral, or the end. -/
def isBehindWhole (c : Char) : Bool := isPoint c || isExponentMark c || isWhitespace c

theorem isDigit_of_isBehindWhole {c : Char} (h : isBehindWhole c = true) : c.isDigit = false := by
  simp only [isBehindWhole, isPoint, isExponentMark, Bool.or_eq_true, beq_iff_eq] at h
  rcases h with (rfl | rfl | rfl) | hspace
  · rfl
  · rfl
  · rfl
  · exact isDigit_of_isWhitespace hspace

theorem head_exponentChars (hrest : Apart rest) :
    ∀ c ∈ (numeral.exponentChars ++ rest).head?, (isExponentMark c || isWhitespace c) = true := by
  unfold exponentChars
  intro c hc
  cases hexponent : numeral.exponent with
  | none =>
    rw [hexponent] at hc
    rw [hrest c hc, Bool.or_true]
  | some exponent =>
    rw [hexponent] at hc
    cases hc
    rw [exponent.isExponentMark_mark, Bool.true_or]

theorem head_fractionChars (hrest : Apart rest) :
    ∀ c ∈ (numeral.fractionChars ++ (numeral.exponentChars ++ rest)).head?,
      isBehindWhole c = true := by
  unfold fractionChars
  intro c hc
  cases hfraction : numeral.fraction with
  | none =>
    rw [hfraction] at hc
    have hmark := numeral.head_exponentChars hrest c hc
    rw [isBehindWhole, Bool.or_assoc, hmark, Bool.or_true]
  | some digits =>
    rw [hfraction] at hc
    cases hc
    rfl

theorem many_whole_append (hrest : Apart rest) : many Char.isDigit
    (numeral.whole ++ (numeral.fractionChars ++ (numeral.exponentChars ++ rest))) =
      (numeral.whole, numeral.fractionChars ++ (numeral.exponentChars ++ rest)) :=
  many_append numeral.whole_isDigit
    (head_of_head (fun _ ↦ isDigit_of_isBehindWhole) (numeral.head_fractionChars hrest))

theorem isPoint_of_mark {c : Char} (h : (isExponentMark c || isWhitespace c) = true) :
    isPoint c = false ∧ c.isDigit = false := by
  simp only [isExponentMark, Bool.or_eq_true, beq_iff_eq] at h
  rcases h with (rfl | rfl) | hspace
  · exact ⟨rfl, rfl⟩
  · exact ⟨rfl, rfl⟩
  · exact ⟨isPoint_of_isWhitespace hspace, isDigit_of_isWhitespace hspace⟩

theorem fraction_append (hrest : Apart rest) :
    Numeral.fraction (numeral.fractionChars ++ (numeral.exponentChars ++ rest)) =
      (numeral.fractionChars, numeral.exponentChars ++ rest) := by
  have hhead := numeral.head_exponentChars hrest
  unfold fractionChars
  cases hfraction : numeral.fraction with
  | none => exact behind_of_head (head_of_head (fun _ h ↦ (isPoint_of_mark h).1) hhead) _
  | some digits =>
    have hdigits : many Char.isDigit (digits ++ (numeral.exponentChars ++ rest)) =
        (digits, numeral.exponentChars ++ rest) :=
      many_append (numeral.fraction_isDigit digits hfraction)
        (head_of_head (fun _ h ↦ (isPoint_of_mark h).2) hhead)
    rw [Numeral.fraction, List.cons_append, behind_cons (by rfl), hdigits]

theorem exponent_append (hrest : Apart rest) :
    Numeral.exponent (numeral.exponentChars ++ rest) = (numeral.exponentChars, rest) := by
  unfold exponentChars
  cases hexponent : numeral.exponent with
  | none => exact behind_of_head (hrest.head fun _ ↦ isExponentMark_of_isWhitespace) _
  | some exponent => exact exponent.exponent_append (hrest.head fun _ ↦ isDigit_of_isWhitespace)

theorem atMostOne_isImaginaryMark (hrest : Apart rest) :
    atMostOne isImaginaryMark rest = ([], rest) :=
  behind_of_head (hrest.head fun _ ↦ isImaginaryMark_of_isWhitespace) nothing

theorem decimal_append (hrest : Apart rest) :
    Numeral.decimal (numeral.chars ++ rest) = (numeral.chars, rest) := by
  have hsign := atMostOne_isSign_append numeral.sign numeral.whole_ne_nil numeral.whole_isDigit
    (numeral.fractionChars ++ (numeral.exponentChars ++ rest))
  have htail := followedBy_eq (numeral.exponent_append hrest) (atMostOne_isImaginaryMark hrest)
  have hfraction := followedBy_eq (numeral.fraction_append hrest) htail
  have hwhole := followedBy_eq (numeral.many_whole_append hrest) hfraction
  have hall := followedBy_eq hsign hwhole
  simp only [List.append_nil] at hall
  simp only [chars, List.append_assoc]
  exact hall

/-! ### Cutting a numeral off -/

/-- A text is cut like a decimal numeral unless it starts like a hexadecimal or a binary one. -/
theorem cut_eq_decimal {text : List Char} (h : ∀ mark left, text = '0' :: mark :: left →
    isHexMark mark = false ∧ isBinaryMark mark = false) : cut text = Numeral.decimal text := by
  unfold cut
  split
  · rename_i mark left
    obtain ⟨hhex, hbinary⟩ := h mark left rfl
    rw [hhex, hbinary]
    rfl
  · rfl

theorem isHexMark_of_isBehindWhole {c : Char} (h : c.isDigit = true ∨ isBehindWhole c = true) :
    isHexMark c = false ∧ isBinaryMark c = false := by
  have hother : ∀ mark : Char, mark.isDigit = false → isBehindWhole mark = false → c ≠ mark := by
    rintro mark hdigit hbehind rfl
    rw [hdigit, hbehind] at h
    simp at h
  have hlowerHex := hother 'x' (by decide) (by decide)
  have hupperHex := hother 'X' (by decide) (by decide)
  have hlowerBinary := hother 'b' (by decide) (by decide)
  have hupperBinary := hother 'B' (by decide) (by decide)
  simp [isHexMark, isBinaryMark, hlowerHex, hupperHex, hlowerBinary, hupperBinary]

/-- A decimal numeral is cut off where the text ends or goes on with whitespace. -/
theorem cut_append (hrest : Apart rest) : cut (numeral.chars ++ rest) = (numeral.chars, rest) := by
  rw [cut_eq_decimal, numeral.decimal_append hrest]
  intro mark left htext
  refine isHexMark_of_isBehindWhole ?_
  have hbehind := numeral.head_fractionChars hrest
  have hdigits := numeral.whole_isDigit
  simp only [chars, List.append_assoc] at htext
  cases hsign : numeral.sign with
  | plus =>
    rw [hsign] at htext
    cases htext
  | minus =>
    rw [hsign] at htext
    cases htext
  | missing =>
    rw [hsign] at htext
    cases hwhole : numeral.whole with
    | nil => exact (numeral.whole_ne_nil hwhole).elim
    | cons c digits =>
      rw [hwhole] at htext hdigits
      have htail := (List.cons.inj htext).2
      cases digits with
      | nil =>
        have hmark : mark ∈
            (numeral.fractionChars ++ (numeral.exponentChars ++ rest)).head? := by
          rw [show numeral.fractionChars ++ (numeral.exponentChars ++ rest) = mark :: left from
            htail]
          rfl
        exact Or.inr (hbehind mark hmark)
      | cons other digits =>
        rw [← (List.cons.inj htail).1]
        exact Or.inl (hdigits other (by simp))

/-! ### Reading a numeral -/

/-- A decimal numeral that is alone is read as the number that it denotes. -/
theorem read?_chars : Decimal.read? numeral.chars = some numeral.decimal := by
  have hsign := atMostOne_isSign_append numeral.sign numeral.whole_ne_nil numeral.whole_isDigit
    (numeral.fractionChars ++ (numeral.exponentChars ++ []))
  have hwhole := numeral.many_whole_append apart_nil
  have hfraction := numeral.fraction_append apart_nil
  simp only [List.append_nil] at hsign hwhole hfraction
  have hsome : numeral.whole.isEmpty = false := by
    simpa using numeral.whole_ne_nil
  have hexponent : Decimal.readExponent? numeral.exponentChars =
      some ((numeral.exponent.map WrittenExponent.value).getD 0) := by
    unfold exponentChars
    cases numeral.exponent with
    | none => rfl
    | some exponent => exact exponent.readExponent?_chars
  have hdigits : numeral.fractionChars.drop 1 = numeral.fraction.getD [] := by
    unfold fractionChars
    cases numeral.fraction <;> rfl
  have hnegative : (numeral.sign.chars == ['-']) = decide (numeral.sign = .minus) := by
    cases numeral.sign <;> decide
  simp only [Decimal.read?, chars, hsign, hwhole, hfraction, hsome, Bool.false_and, hexponent,
    Option.map_some, decimal, hdigits, hnegative]
  rfl

/-- A decimal numeral has a value: the floating-point number nearest to what it denotes. -/
theorem value?_text : value? numeral.text = some numeral.value := by
  rw [value?, text, String.toList_ofList, read?_chars, Option.map_some, value]

end Written

end Formulary.Numeral

namespace Formulary

open Text

/-- Where a decimal numeral begins, a number is read. -/
theorem Numeral.Written.startsNumber_chars {numeral : Written} {c : Char} {cs : List Char}
    (hchars : numeral.chars = c :: cs) :
    isWhitespace c = false ∧ ∀ rest, Lexer.startsNumber c (cs ++ rest) = true := by
  obtain ⟨digit, digits, hwhole⟩ := List.exists_cons_of_ne_nil numeral.whole_ne_nil
  have hdigit : digit.isDigit = true := numeral.whole_isDigit digit (by simp [hwhole])
  rw [chars, hwhole] at hchars
  cases hsign : numeral.sign with
  | missing =>
    rw [hsign] at hchars
    obtain ⟨rfl, -⟩ := List.cons.inj hchars
    refine ⟨?_, fun rest ↦ by simp [Lexer.startsNumber, hdigit]⟩
    cases hspace : isWhitespace digit with
    | false => rfl
    | true =>
      rw [isDigit_of_isWhitespace hspace] at hdigit
      cases hdigit
  | plus =>
    rw [hsign] at hchars
    obtain ⟨rfl, rfl⟩ := List.cons.inj hchars
    exact ⟨by decide, fun rest ↦ by simp [Lexer.startsNumber, isSign, hdigit]⟩
  | minus =>
    rw [hsign] at hchars
    obtain ⟨rfl, rfl⟩ := List.cons.inj hchars
    exact ⟨by decide, fun rest ↦ by simp [Lexer.startsNumber, isSign, hdigit]⟩

theorem Numeral.Written.chars_ne_nil (numeral : Written) : numeral.chars ≠ [] := by
  intro h
  simp only [chars, List.append_eq_nil_iff] at h
  exact numeral.whole_ne_nil h.2.1

/-- Assumes: a numeral in front of a text that does not go on with a letter or digit. It is the next
token. -/
theorem Lexer.cutNumber_of_cut {text taken left : List Char}
    (hcut : Numeral.cut text = (taken, left))
    (hend : ∀ other ∈ left.head?, other.isAlphanum = false) :
    cutNumber text = .ok (⟨.number, String.ofList taken⟩, left) := by
  have hnone : left.head?.filter Char.isAlphanum = none := by
    cases left with
    | nil => rfl
    | cons other left => simp [Option.filter, hend other rfl]
  simp only [cutNumber, hcut, hnone]

/-- A decimal numeral stands for itself. -/
theorem Token.stands_number (g : Grammar) (numeral : Numeral.Written) :
    Stands g ⟨.number, numeral.text⟩ := by
  obtain ⟨c, cs, hchars⟩ := List.exists_cons_of_ne_nil numeral.chars_ne_nil
  obtain ⟨hspace, hnumber⟩ := Numeral.Written.startsNumber_chars hchars
  refine ⟨c, cs, by rw [Numeral.Written.text, String.toList_ofList, hchars], hspace, ?_⟩
  intro rest hapart
  have hcut : Numeral.cut (c :: cs ++ rest) = (c :: cs, rest) := by
    rw [← hchars]
    exact numeral.cut_append hapart
  rw [Lexer.cutToken, hnumber rest, if_pos rfl, Numeral.Written.text, hchars]
  exact Lexer.cutNumber_of_cut hcut (hapart.head fun _ ↦ isAlphanum_of_isWhitespace)

end Formulary
