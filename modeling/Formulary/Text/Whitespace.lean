import Formulary.Text.CodePoints

/-!
# Whitespace

The characters with the Unicode property White_Space. They separate tokens and cannot occur in the
symbol of an operator. The set extends the whitespace of the core library, which is ASCII only
(`isWhitespace_of_core`).
-/

set_option autoImplicit false
set_option relaxedAutoImplicit false

namespace Formulary.Text

/-- The code points with the property White_Space. -/
def whitespaceRanges : CodePoints where
  ranges := [
    (0x9, 0xD), (0x20, 0x20), (0x85, 0x85), (0xA0, 0xA0), (0x1680, 0x1680), (0x2000, 0x200A),
    (0x2028, 0x2029), (0x202F, 0x202F), (0x205F, 0x205F), (0x3000, 0x3000)]
  ascending := by decide

/-- Whether the character is whitespace. -/
def isWhitespace (c : Char) : Bool := whitespaceRanges.has c

theorem isWhitespace_of_core (c : Char) (h : c.isWhitespace = true) : isWhitespace c = true := by
  simp only [Char.isWhitespace, Bool.or_eq_true, decide_eq_true_eq] at h
  rcases h with ((rfl | rfl) | rfl) | rfl <;> decide

end Formulary.Text
