/-!
# Sets of characters as ranges of code points

The character classes of this library are sets of code points fixed by the Unicode standard. They
are given by closed ranges, and a character belongs to a set when its code point lies in one of the
ranges (`CodePoints.has_iff`). The ranges are in increasing order and do not touch
(`CodePoints.Ascending`). That is part of what a set is, so no code point is listed twice
(`CodePoints.range_unique`).
-/

set_option autoImplicit false
set_option relaxedAutoImplicit false

namespace Formulary.Text

namespace CodePoints

/-- The ranges increase from `bound` on, with at least one code point between two neighbours. -/
def ascendingFrom : Nat → List (Nat × Nat) → Bool
  | _, [] => true
  | bound, (first, last) :: rest =>
    bound ≤ first && first ≤ last && ascendingFrom (last + 2) rest

/-- Nonempty ranges in increasing order that do not touch. -/
def Ascending (ranges : List (Nat × Nat)) : Prop := ascendingFrom 0 ranges = true

instance (ranges : List (Nat × Nat)) : Decidable (Ascending ranges) :=
  inferInstanceAs (Decidable (_ = true))

end CodePoints

/-- A set of characters: closed ranges of code points, each given by its first and its last. -/
structure CodePoints where
  ranges : List (Nat × Nat)
  ascending : CodePoints.Ascending ranges

namespace CodePoints

/-- Whether the code point of the character lies in one of the ranges. -/
def has (set : CodePoints) (c : Char) : Bool :=
  set.ranges.any fun range ↦ range.1 ≤ c.toNat && c.toNat ≤ range.2

theorem has_iff (set : CodePoints) (c : Char) :
    set.has c = true ↔ ∃ range ∈ set.ranges, range.1 ≤ c.toNat ∧ c.toNat ≤ range.2 := by
  simp [has]

theorem ascendingFrom_cons {bound : Nat} {range : Nat × Nat} {rest : List (Nat × Nat)} :
    ascendingFrom bound (range :: rest) = true ↔
      bound ≤ range.1 ∧ range.1 ≤ range.2 ∧ ascendingFrom (range.2 + 2) rest = true := by
  simp [ascendingFrom, and_assoc]

theorem le_first_of_ascendingFrom {bound : Nat} {ranges : List (Nat × Nat)}
    (h : ascendingFrom bound ranges = true) {range : Nat × Nat} (hrange : range ∈ ranges) :
    bound ≤ range.1 := by
  induction ranges generalizing bound with
  | nil => cases hrange
  | cons head rest ih =>
    obtain ⟨hbound, hnonempty, hrest⟩ := ascendingFrom_cons.mp h
    rw [List.mem_cons] at hrange
    obtain rfl | hrange := hrange
    · exact hbound
    · have hbehind := ih hrest hrange
      omega

/-- Two of the ranges that overlap are one. -/
theorem eq_of_ascendingFrom {bound : Nat} {ranges : List (Nat × Nat)}
    (h : ascendingFrom bound ranges = true) {range other : Nat × Nat} (hrange : range ∈ ranges)
    (hother : other ∈ ranges) (hstart : range.1 ≤ other.2) (hend : other.1 ≤ range.2) :
    range = other := by
  induction ranges generalizing bound with
  | nil => cases hrange
  | cons head rest ih =>
    obtain ⟨-, -, hrest⟩ := ascendingFrom_cons.mp h
    rw [List.mem_cons] at hrange hother
    obtain rfl | hrange := hrange <;> obtain rfl | hother := hother
    · rfl
    · have hbehind := le_first_of_ascendingFrom hrest hother
      omega
    · have hbehind := le_first_of_ascendingFrom hrest hrange
      omega
    · exact ih hrest hrange hother

/-- A code point lies in one range of a set at most. -/
theorem range_unique (set : CodePoints) {code : Nat} {range other : Nat × Nat}
    (hrange : range ∈ set.ranges) (hother : other ∈ set.ranges)
    (hin : range.1 ≤ code ∧ code ≤ range.2) (hinOther : other.1 ≤ code ∧ code ≤ other.2) :
    range = other :=
  eq_of_ascendingFrom set.ascending hrange hother (Nat.le_trans hin.1 hinOther.2)
    (Nat.le_trans hinOther.1 hin.2)

end CodePoints

end Formulary.Text
