import Formulary.Text.Cutting
import Mathlib.Computability.Language
import Mathlib.Data.List.TakeWhile

/-!
# The longest text of a language in front of a text

A language is a set of texts, and it is written as a regular expression: classes of characters,
alternatives, concatenation and repetition. What a lexer should cut off a text is the longest of its
beginnings that belong to a language (`Text.IsLongest`); there is at most one.

Cuttings look at one character after the other and never give back what they have taken. Main
statement: such a cutting takes the longest beginning nevertheless (`Cutting.Munches`), for the
languages that correspond to the parts that cuttings are composed of. Where one cutting follows
another, it may not be possible to take less at first in order to take more behind it. That is so
where the texts behind do not start with a character that the texts before are made of.
-/

set_option autoImplicit false
set_option relaxedAutoImplicit false

namespace Formulary.Text

open scoped Computability

/-! ### Languages -/

/-- The texts of one character of a class. -/
def oneOf (p : Char → Bool) : Language Char := { text | ∃ c, p c = true ∧ text = [c] }

/-- Whether the texts of a language are made of characters of a class. -/
def ConsistsOf (p : Char → Bool) (language : Language Char) : Prop :=
  ∀ text ∈ language, ∀ c ∈ text, p c = true

/-- Whether the texts of a language start with a character of a class, unless they are empty. -/
def StartsIn (p : Char → Bool) (language : Language Char) : Prop :=
  ∀ text ∈ language, ∀ c ∈ text.head?, p c = true

variable {p q : Char → Bool} {first second language : Language Char} {c : Char}
  {text rest taken more : List Char}

theorem mem_oneOf : text ∈ oneOf p ↔ ∃ c, p c = true ∧ text = [c] := Iff.rfl

theorem cons_mem_oneOf_mul (hc : p c = true) (h : rest ∈ language) :
    c :: rest ∈ oneOf p * language :=
  Language.append_mem_mul (mem_oneOf.mpr ⟨c, hc, rfl⟩) h

theorem mem_oneOf_mul :
    text ∈ oneOf p * language ↔ ∃ c rest, p c = true ∧ rest ∈ language ∧ text = c :: rest := by
  constructor
  · rintro ⟨_, ⟨c, hc, rfl⟩, rest, hrest, rfl⟩
    exact ⟨c, rest, hc, hrest, rfl⟩
  · rintro ⟨c, rest, hc, hrest, rfl⟩
    exact cons_mem_oneOf_mul hc hrest

/-- A text that has a beginning in the language starts with a character of the class. -/
theorem any_head?_of_isPrefix (hmem : taken ∈ oneOf p * language) (hbegins : taken <+: text) :
    text.head?.any p = true := by
  obtain ⟨c, rest, hc, -, rfl⟩ := mem_oneOf_mul.mp hmem
  obtain ⟨behind, rfl⟩ := hbegins
  exact hc

/-- The texts that repeat a class are those that are made of its characters. -/
theorem mem_kstar_oneOf : text ∈ (oneOf p)∗ ↔ ∀ c ∈ text, p c = true := by
  constructor
  · rintro ⟨parts, rfl, hparts⟩ c hc
    obtain ⟨part, hpart, hc⟩ := List.mem_flatten.mp hc
    obtain ⟨only, honly, rfl⟩ := hparts part hpart
    rwa [List.mem_singleton.mp hc]
  · intro h
    have hparts : (text.map fun c ↦ [c]).flatten ∈ (oneOf p)∗ := by
      refine Language.join_mem_kstar fun part hpart ↦ ?_
      obtain ⟨c, hc, rfl⟩ := List.mem_map.mp hpart
      exact ⟨c, h c hc, rfl⟩
    rwa [← List.flatMap_def, List.flatMap_singleton'] at hparts

/-! ### The characters of a language -/

theorem ConsistsOf.mono (h : ConsistsOf q language) (hqp : ∀ c, q c = true → p c = true) :
    ConsistsOf p language :=
  fun text htext c hc ↦ hqp c (h text htext c hc)

theorem consistsOf_one : ConsistsOf p 1 := by
  rintro _ rfl c hc
  cases hc

theorem consistsOf_oneOf (hqp : ∀ c, q c = true → p c = true) : ConsistsOf p (oneOf q) := by
  rintro _ ⟨c, hc, rfl⟩
  exact List.forall_mem_singleton.mpr (hqp c hc)

theorem consistsOf_kstar (hqp : ∀ c, q c = true → p c = true) : ConsistsOf p (oneOf q)∗ :=
  fun _ htext c hc ↦ hqp c (mem_kstar_oneOf.mp htext c hc)

theorem ConsistsOf.add (hfirst : ConsistsOf p first) (hsecond : ConsistsOf p second) :
    ConsistsOf p (first + second) :=
  fun text htext ↦ htext.elim (hfirst text) (hsecond text)

theorem ConsistsOf.mul (hfirst : ConsistsOf p first) (hsecond : ConsistsOf p second) :
    ConsistsOf p (first * second) := by
  rintro _ ⟨left, hleft, right, hright, rfl⟩
  exact List.forall_mem_append.mpr ⟨hfirst left hleft, hsecond right hright⟩

theorem StartsIn.mono (h : StartsIn q language) (hqp : ∀ c, q c = true → p c = true) :
    StartsIn p language :=
  fun text htext c hc ↦ hqp c (h text htext c hc)

theorem startsIn_one : StartsIn p 1 := by
  rintro _ rfl c hc
  cases hc

theorem startsIn_oneOf_mul (hqp : ∀ c, q c = true → p c = true) :
    StartsIn p (oneOf q * language) := by
  intro text htext c hc
  obtain ⟨first, rest, hfirst, -, rfl⟩ := mem_oneOf_mul.mp htext
  cases hc
  exact hqp c hfirst

theorem startsIn_kstar (hqp : ∀ c, q c = true → p c = true) : StartsIn p (oneOf q)∗ :=
  fun _ htext c hc ↦ hqp c (mem_kstar_oneOf.mp htext c (List.mem_of_mem_head? hc))

theorem StartsIn.add (hfirst : StartsIn p first) (hsecond : StartsIn p second) :
    StartsIn p (first + second) :=
  fun text htext ↦ htext.elim (hfirst text) (hsecond text)

theorem StartsIn.mul (hfirst : StartsIn p first) (hsecond : StartsIn p second) :
    StartsIn p (first * second) := by
  rintro _ ⟨left, hleft, right, hright, rfl⟩ c hc
  cases left with
  | nil => exact hsecond right hright c hc
  | cons other left => exact hfirst _ hleft c hc

/-! ### The longest beginning -/

/-- Whether what is taken is the longest beginning of the text that belongs to the language. -/
structure IsLongest (language : Language Char) (text taken : List Char) : Prop where
  isPrefix : taken <+: text
  mem : taken ∈ language
  length_le : ∀ other ∈ language, other <+: text → other.length ≤ taken.length

namespace IsLongest

theorem unique (htaken : IsLongest language text taken) (hmore : IsLongest language text more) :
    taken = more := by
  have hlength : taken.length = more.length :=
    Nat.le_antisymm (hmore.length_le taken htaken.mem htaken.isPrefix)
      (htaken.length_le more hmore.mem hmore.isPrefix)
  exact (List.prefix_of_prefix_length_le htaken.isPrefix hmore.isPrefix hlength.le).eq_of_length
    hlength

/-- The longest beginning stays the longest one when shorter beginnings are allowed as well. -/
theorem of_le (htaken : IsLongest first text taken) (hmem : taken ∈ language)
    (h : ∀ other ∈ language, other <+: text → other ∈ first ∨ other.length ≤ taken.length) :
    IsLongest language text taken where
  isPrefix := htaken.isPrefix
  mem := hmem
  length_le := fun other hother hbegins ↦
    (h other hother hbegins).elim (htaken.length_le other · hbegins) id

theorem cons (hc : p c = true) (h : IsLongest language rest taken) :
    IsLongest (oneOf p * language) (c :: rest) (c :: taken) where
  isPrefix := (List.prefix_cons_inj c).mpr h.isPrefix
  mem := cons_mem_oneOf_mul hc h.mem
  length_le := by
    intro other hother hbegins
    obtain ⟨first, left, -, hleft, rfl⟩ := mem_oneOf_mul.mp hother
    exact Nat.succ_le_succ (h.length_le left hleft (List.cons_prefix_cons.mp hbegins).2)

/-- Assumes: the texts of the second language do not start with a character that the texts of the
first one are made of. The longest beginning in the first language, and behind it the longest one in
the second, are together the longest one in their concatenation. -/
theorem mul (htaken : IsLongest first text taken) (htext : taken ++ rest = text)
    (hmore : IsLongest second rest more) (hfirst : ConsistsOf p first)
    (hsecond : StartsIn q second) (hpq : ∀ c, p c = true → q c = false) :
    IsLongest (first * second) text (taken ++ more) where
  isPrefix := htext ▸ (List.prefix_append_right_inj taken).mpr hmore.isPrefix
  mem := Language.append_mem_mul htaken.mem hmore.mem
  length_le := by
    rintro _ ⟨left, hleft, right, hright, rfl⟩ hbegins
    have hfront : left <+: text := (List.prefix_append left right).trans hbegins
    obtain ⟨between, rfl⟩ := List.prefix_of_prefix_length_le hfront htaken.isPrefix
      (htaken.length_le left hleft hfront)
    have hbehind : right <+: between ++ rest := by
      rw [← htext, List.append_assoc] at hbegins
      exact (List.prefix_append_right_inj left).mp hbegins
    simp only [List.length_append]
    cases between with
    | nil =>
      have hle := hmore.length_le right hright hbehind
      omega
    | cons c between =>
      cases right with
      | nil =>
        simp only [List.length_nil]
        omega
      | cons other right =>
        -- What is taken goes on with the character that the second text would have to start with.
        obtain ⟨rfl, -⟩ := List.cons_prefix_cons.mp hbehind
        have hp : p other = true :=
          hfirst _ htaken.mem other (List.mem_append_right left List.mem_cons_self)
        have hq : q other = true := hsecond _ hright other rfl
        rw [hpq other hp] at hq
        cases hq

end IsLongest

/-! ### Cuttings that take the longest beginning -/

namespace Cutting

/-- Whether the cutting takes the longest beginning of every text that belongs to the language. -/
def Munches (language : Language Char) (cut : Cutting) : Prop :=
  ∀ text, IsLongest language text (cut text).1

theorem munches_nothing : Munches 1 nothing := fun text ↦ {
  isPrefix := List.nil_prefix
  mem := rfl
  length_le := by
    rintro _ rfl -
    exact Nat.le_refl _ }

theorem munches_many (p : Char → Bool) : Munches (oneOf p)∗ (many p) := fun text ↦ {
  isPrefix := List.takeWhile_prefix p
  mem := mem_kstar_oneOf.mpr fun _ hc ↦ List.mem_takeWhile_imp hc
  length_le := by
    rintro other hother ⟨rest, rfl⟩
    rw [many, List.takeWhile_append_of_pos (mem_kstar_oneOf.mp hother), List.length_append]
    exact Nat.le_add_right _ _ }

/-- Where a character of the class stands, at least one is taken. -/
theorem isLongest_many_cons (hc : p c = true) (rest : List Char) :
    IsLongest (oneOf p * (oneOf p)∗) (c :: rest) (many p (c :: rest)).1 := by
  rw [many, List.takeWhile_cons_of_pos hc]
  exact (munches_many p rest).cons hc

/-- A part that may be missing is taken where it starts. -/
theorem Munches.behind {cut : Cutting} (hcut : Munches language cut) (p : Char → Bool) :
    Munches (1 + oneOf p * language) (behind p cut) := by
  intro text
  cases text with
  | nil =>
    exact {
      isPrefix := List.nil_prefix
      mem := Or.inl rfl
      length_le := fun other _ hbegins ↦ hbegins.length_le }
  | cons c rest =>
    by_cases hc : p c = true
    · have hlongest := (hcut rest).cons hc
      rw [Cutting.behind, if_pos hc]
      refine hlongest.of_le (Or.inr hlongest.mem) fun other hother _ ↦ hother.symm.imp id ?_
      rintro rfl
      exact Nat.zero_le _
    · rw [Cutting.behind, if_neg hc]
      refine (munches_nothing (c :: rest)).of_le (Or.inl rfl) fun other hother hbegins ↦ ?_
      exact hother.imp id fun hother ↦ absurd (any_head?_of_isPrefix hother hbegins) hc

theorem munches_atMostOne (p : Char → Bool) : Munches (1 + oneOf p) (atMostOne p) := by
  have h := munches_nothing.behind p
  rwa [mul_one] at h

/-- Assumes: the texts of the second language do not start with a character that the texts of the
first one are made of. -/
theorem Munches.followedBy {cut next : Cutting} (hcut : Munches first cut) (hdivides : Divides cut)
    (hnext : Munches second next) (hfirst : ConsistsOf p first) (hsecond : StartsIn q second)
    (hpq : ∀ c, p c = true → q c = false) : Munches (first * second) (followedBy cut next) :=
  fun text ↦ (hcut text).mul (hdivides text) (hnext (cut text).2) hfirst hsecond hpq

/-- Assumes: a text of the language, and behind it no character that its texts are made of. Exactly
this text is taken. -/
theorem Munches.cut_append {cut : Cutting} (hcut : Munches language cut) (hdivides : Divides cut)
    (hlanguage : ConsistsOf p language) (htaken : taken ∈ language)
    (hrest : ∀ c ∈ rest.head?, p c = false) : cut (taken ++ rest) = (taken, rest) := by
  have hlongest : IsLongest language (taken ++ rest) taken := by
    refine ⟨List.prefix_append taken rest, htaken, fun other hother hbegins ↦ ?_⟩
    by_contra hlonger
    obtain ⟨between, rfl⟩ := List.prefix_of_prefix_length_le (List.prefix_append taken rest) hbegins
      (Nat.le_of_not_le hlonger)
    cases between with
    | nil => exact hlonger (by rw [List.append_nil])
    | cons c between =>
      obtain ⟨behind, hbehind⟩ := (List.prefix_append_right_inj taken).mp hbegins
      have hc : p c = true :=
        hlanguage _ hother c (List.mem_append_right taken List.mem_cons_self)
      rw [hrest c (by rw [← hbehind]; rfl)] at hc
      cases hc
  have hfront : (cut (taken ++ rest)).1 = taken := (hcut (taken ++ rest)).unique hlongest
  have hback := hdivides (taken ++ rest)
  rw [hfront] at hback
  exact Prod.ext hfront (List.append_cancel_left hback)

end Cutting

end Formulary.Text
