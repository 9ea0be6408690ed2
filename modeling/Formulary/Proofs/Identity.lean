import Formulary.Context

/-!
# What is the same but for identity

Contexts are alike (`Context.Alike`) if they bind the same names to the same formulas and have the
same names on the call stack; the identities of the expressions may differ.

In one context, an identity is meant to stand for one formula (`Context.Coherent`). An identity is
new if the supply has not handed it out (`Supply.HandedOut`).
-/

set_option autoImplicit false
set_option relaxedAutoImplicit false

namespace Formulary

/-- Whether the supply has handed out the identity. -/
def Supply.HandedOut (supply : Supply) (id : ExpressionId) : Prop := id.number < supply.next

theorem Supply.not_handedOut_issue (supply : Supply) (arena : Arena) :
    ¬ supply.HandedOut (supply.issue arena).1.id := Nat.lt_irrefl _

namespace Context

/-- Whether two contexts differ at most in the identities of the expressions that they bind. -/
structure Alike (first second : Context) : Prop where
  callStack : first.callStack = second.callStack
  find? : ∀ name,
    (first.find? name).map Expression.arena = (second.find? name).map Expression.arena

/-- Whether expressions of one identity are the same formula. -/
def Coherent (context : Context) : Prop :=
  ∀ ⦃first second : String⦄ ⦃x y : Expression⦄, context.find? first = some x →
    context.find? second = some y → x.id = y.id → x.arena = y.arena

theorem Alike.refl (context : Context) : Alike context context := ⟨rfl, fun _ ↦ rfl⟩

theorem Alike.add {first second : Context} (h : Alike first second) (name : String)
    {x y : Expression} (hsame : x.arena = y.arena) :
    Alike (first.add name x) (second.add name y) where
  callStack := h.callStack
  find? := by
    intro other
    rw [find?_add, find?_add]
    by_cases hname : name = other
    · rw [if_pos hname, if_pos hname, Option.map_some, Option.map_some, hsame]
    · rw [if_neg hname, if_neg hname]
      exact h.find? other

end Context

end Formulary
