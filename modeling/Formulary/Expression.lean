import Formulary.Arena

/-!
# Expressions and their identity

An expression is a compiled formula together with an identity. Copies of an expression share its
identity; compiling a text anew gives a new one, even when the text is the same. Identities are what
the search for cycles compares. They are drawn from a supply that hands out each number once
(`Supply.issue`), and kept in machine words, which tell them apart as long as there are no more of
them than words (`ExpressionId.eq_of_word_eq`).
-/

set_option autoImplicit false
set_option relaxedAutoImplicit false

namespace Formulary

/-- The identity of an expression. -/
structure ExpressionId where
  number : Nat
  deriving DecidableEq

/-- The identity as it is kept, in a machine word. -/
def ExpressionId.word (id : ExpressionId) : UInt64 := .ofNat id.number

theorem ExpressionId.eq_of_word_eq {first second : ExpressionId}
    (hfirst : first.number < UInt64.size) (hsecond : second.number < UInt64.size)
    (h : first.word = second.word) : first = second := by
  have hnumber : first.number = second.number := by
    rw [← UInt64.toNat_ofNat_of_lt' hfirst, ← UInt64.toNat_ofNat_of_lt' hsecond]
    exact congrArg UInt64.toNat h
  exact congrArg mk hnumber

/-- A compiled formula with an identity. -/
structure Expression where
  id : ExpressionId
  arena : Arena

/-- The identities that have not been handed out: all numbers from `next` on. -/
structure Supply where
  next : Nat

namespace Supply

/-- The supply from which nothing has been handed out. -/
def full : Supply := ⟨0⟩

/-- Hands out an identity. -/
def issue (supply : Supply) (arena : Arena) : Expression × Supply :=
  (⟨⟨supply.next⟩, arena⟩, ⟨supply.next + 1⟩)

end Supply

end Formulary
