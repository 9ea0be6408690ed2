/-!
# Cutting the front off a text

A cutting divides a text into what it takes off the front and what it leaves. Cuttings are composed
from four parts: take nothing, take the leading characters of a class (`many`), take one character
of a class if it is there and then go on behind it (`behind`), and cut twice (`followedBy`).
Whatever is composed of these divides the text: what is taken and what is left are the text
(`Divides`).
-/

set_option autoImplicit false
set_option relaxedAutoImplicit false

namespace Formulary.Text

/-- Divides a text into what is taken off its front and what is left. -/
abbrev Cutting := List Char → List Char × List Char

namespace Cutting

/-- Takes nothing. -/
def nothing : Cutting := fun text ↦ ([], text)

/-- Takes the leading characters of a class. -/
def many (p : Char → Bool) : Cutting := fun text ↦ (text.takeWhile p, text.dropWhile p)

/-- Takes the first character if it belongs to a class, and then cuts on. -/
def behind (p : Char → Bool) (cut : Cutting) : Cutting
  | [] => ([], [])
  | c :: rest => if p c then (c :: (cut rest).1, (cut rest).2) else ([], c :: rest)

/-- Takes the first character if it belongs to a class. -/
def atMostOne (p : Char → Bool) : Cutting := behind p nothing

/-- Cuts twice, the second time what the first cutting has left. -/
def followedBy (first second : Cutting) : Cutting := fun text ↦
  let (taken, rest) := first text
  let (more, rest) := second rest
  (taken ++ more, rest)

/-! ### What is taken and what is left are the text -/

/-- What the cutting takes and what it leaves are the text. -/
def Divides (cut : Cutting) : Prop := ∀ text : List Char, (cut text).1 ++ (cut text).2 = text

theorem divides_nothing : Divides nothing := fun _ ↦ rfl

theorem divides_many (p : Char → Bool) : Divides (many p) := fun _ ↦
  List.takeWhile_append_dropWhile

theorem Divides.behind {cut : Cutting} (hcut : Divides cut) (p : Char → Bool) :
    Divides (behind p cut) := by
  intro text
  cases text with
  | nil => rfl
  | cons c rest =>
    by_cases hc : p c = true
    · simp [Cutting.behind, hc, hcut rest]
    · simp [Cutting.behind, hc]

theorem divides_atMostOne (p : Char → Bool) : Divides (atMostOne p) := divides_nothing.behind p

theorem Divides.followedBy {first second : Cutting} (hfirst : Divides first)
    (hsecond : Divides second) : Divides (followedBy first second) := by
  intro text
  have hleft := hsecond (first text).2
  have hright := hfirst text
  simp only [Cutting.followedBy, List.append_assoc, hleft, hright]

end Cutting

end Formulary.Text
