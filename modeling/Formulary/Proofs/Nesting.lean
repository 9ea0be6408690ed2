import Formulary.Proofs.Evaluation
import Mathlib.Data.List.TakeWhile

/-!
# The stack of an evaluation

While names are resolved, each frame on the stack names an expression that the context binds to its
name, and no expression is on the stack twice (`Context.Nested`). This holds of the empty stack and
stays true when a name is resolved that closes no cycle (`Context.Nested.enter`). The stack is
therefore no deeper than the context is large (`Context.Nested.depth_le_size`), and a bound for the
nesting beyond that size is never reached: any greater one gives the same outcome
(`EvalM.outcome_evaluate_of_le`).
-/

set_option autoImplicit false
set_option relaxedAutoImplicit false

namespace Formulary

/-- There is no cycle where the expression is not on the stack. -/
theorem CallStack.cycle?_eq_none_iff {stack : CallStack} {id : ExpressionId} {name : String} :
    stack.cycle? id name = none ↔ ∀ frame ∈ stack.frames, frame.expression ≠ id := by
  have hempty : stack.frames.reverse.dropWhile (·.expression ≠ id) = [] ↔
      ∀ frame ∈ stack.frames, frame.expression ≠ id := by
    simp only [List.dropWhile_eq_nil_iff, List.mem_reverse, decide_eq_true_eq]
  rw [← hempty, cycle?]
  cases stack.frames.reverse.dropWhile (·.expression ≠ id) with
  | nil => exact ⟨fun _ ↦ rfl, fun _ ↦ rfl⟩
  | cons frame frames =>
    constructor
    · intro h
      cases h
    · intro h
      cases h

namespace Context

/-- What an evaluation keeps true of the stack: its frames name what the context binds, and no
expression is on it twice. -/
structure Nested (context : Context) : Prop where
  bound : ∀ frame ∈ context.callStack.frames,
    ∃ x, context.find? frame.name = some x ∧ x.id = frame.expression
  distinct : context.callStack.frames.Pairwise fun inner outer ↦
    inner.expression ≠ outer.expression

variable {context : Context}

theorem nested_of_empty (h : context.callStack = .empty) : context.Nested where
  bound := by
    intro frame hframe
    rw [h] at hframe
    cases hframe
  distinct := by
    rw [h]
    exact .nil

/-- Assumes: the name is bound to an expression that is not on the stack. -/
theorem Nested.enter (h : context.Nested) {name : String} {x : Expression}
    (hfind : context.find? name = some x) (hfree : context.callStack.cycle? x.id name = none) :
    (context.enter ⟨name, x.id⟩).Nested where
  bound := by
    intro frame hframe
    rcases List.mem_cons.mp hframe with rfl | hframe
    · exact ⟨x, hfind, rfl⟩
    · exact h.bound frame hframe
  distinct := by
    refine List.pairwise_cons.mpr ⟨fun frame hframe ↦ ?_, h.distinct⟩
    exact (CallStack.cycle?_eq_none_iff.mp hfree frame hframe).symm

/-- The names on the stack are distinct, since a name has one expression. -/
theorem Nested.nodup_names (h : context.Nested) :
    (context.callStack.frames.map Frame.name).Nodup := by
  refine List.pairwise_map.mpr (h.distinct.imp_of_mem fun hinner houter hne hname ↦ hne ?_)
  obtain ⟨x, hx, hid⟩ := h.bound _ hinner
  obtain ⟨y, hy, hother⟩ := h.bound _ houter
  rw [hname, hy] at hx
  rw [← hid, ← hother, Option.some.inj hx]

theorem mem_keys_of_find? {name : String} {x : Expression} (h : context.find? name = some x) :
    name ∈ context.bindings.keys := by
  have hsome : (context.bindings[name]?).isSome = true := by
    rw [show context.bindings[name]? = some x from h]
    rfl
  exact Std.ExtTreeMap.mem_keys.mpr (Std.ExtTreeMap.mem_iff_isSome_getElem?.mpr hsome)

/-- The stack is no deeper than the context is large. -/
theorem Nested.depth_le_size (h : context.Nested) : context.callStack.depth ≤ context.size := by
  have hsubset : context.callStack.frames.map Frame.name ⊆ context.bindings.keys := by
    intro name hname
    obtain ⟨frame, hframe, rfl⟩ := List.mem_map.mp hname
    obtain ⟨x, hx, -⟩ := h.bound frame hframe
    exact mem_keys_of_find? hx
  calc context.callStack.depth = (context.callStack.frames.map Frame.name).length :=
        (List.length_map Frame.name).symm
    _ ≤ context.bindings.keys.length := h.nodup_names.length_le_of_subset hsubset
    _ = context.size := Std.ExtTreeMap.length_keys

end Context

/-! ### The bound for the nesting -/

/-- Whether two actions that begin with the context have one outcome and leave the context as it
was. -/
def Coincide (context : Context) (α : Type) (x y : EvalM α) : Prop :=
  ∀ lookups, ∃ result more, EvalM.outcome x ⟨context, lookups⟩ = (result, ⟨context, more⟩) ∧
    EvalM.outcome y ⟨context, lookups⟩ = (result, ⟨context, more⟩)

theorem compatible_coincide (context : Context) : Compatible (Coincide context) where
  pure := fun a lookups ↦ ⟨.ok a, lookups, EvalM.outcome_pure a _, EvalM.outcome_pure a _⟩
  badTree := fun arity count lookups ↦
    ⟨.error (.badTree arity count), lookups, EvalM.outcome_throw _ _, EvalM.outcome_throw _ _⟩
  bind := by
    intro α β x y f g hfirst hrest lookups
    obtain ⟨result, more, hx, hy⟩ := hfirst lookups
    cases result with
    | ok a =>
      rw [EvalM.outcome_bind_of_ok hx, EvalM.outcome_bind_of_ok hy]
      exact hrest a more
    | error error =>
      exact ⟨.error error, more, EvalM.outcome_bind_of_error hx f,
        EvalM.outcome_bind_of_error hy g⟩

namespace EvalM

/-- Assumes: the expression of a name that closes no cycle is evaluated in two ways that coincide.
So do the two ways to resolve the name. -/
theorem coincide_resolve {context : Context} {first second : Expression → EvalM Float}
    {name : String} (h : ∀ x, context.find? name = some x →
      context.callStack.cycle? x.id name = none →
      Coincide (context.enter ⟨name, x.id⟩) Float (first x) (second x)) :
    Coincide context Float (resolve first name) (resolve second name) := by
  intro lookups
  cases hfind : context.find? name with
  | none => exact ⟨_, _, outcome_resolve_of_unbound hfind lookups,
      outcome_resolve_of_unbound hfind lookups⟩
  | some x =>
    cases hcycle : context.callStack.cycle? x.id name with
    | some chain => exact ⟨_, _, outcome_resolve_of_cycle hfind hcycle lookups,
        outcome_resolve_of_cycle hfind hcycle lookups⟩
    | none =>
      obtain ⟨result, more, hfirst, hsecond⟩ := h x hfind hcycle
        (lookups.push ⟨name, context.callStack⟩)
      refine ⟨result, more, ?_, ?_⟩
      · rw [outcome_resolve_of_free hfind hcycle, hfirst]
        rfl
      · rw [outcome_resolve_of_free hfind hcycle, hsecond]
        rfl

/-- Assumes: the nesting that is left is enough for the names that are not on the stack. One more
changes nothing. -/
theorem coincide_evaluate {context : Context} (hnested : context.Nested) {nesting : Nat}
    (hroom : context.size < nesting + context.callStack.depth) (x : Expression) :
    Coincide context Float (evaluate nesting x) (evaluate (nesting + 1) x) := by
  induction nesting generalizing context x with
  | zero =>
    have hdepth := hnested.depth_le_size
    omega
  | succ nesting ih =>
    refine Arena.evaluate_related (compatible_coincide context) fun name _ ↦ ?_
    refine coincide_resolve fun y hfind hcycle ↦ ih (hnested.enter hfind hcycle) ?_ y
    show context.size < nesting + (context.callStack.depth + 1)
    omega

/-- Assumes: no name is being resolved, and the bound is greater than the context is large. The
bound is of no matter. -/
theorem outcome_evaluate_of_le {context : Context} (hstack : context.callStack = .empty)
    {nesting : Nat} (hle : context.size + 1 ≤ nesting) (x : Expression) (lookups : Array Lookup) :
    outcome (evaluate nesting x) ⟨context, lookups⟩ =
      outcome (evaluate (context.size + 1) x) ⟨context, lookups⟩ := by
  induction hle with
  | refl => rfl
  | @step nesting hle ih =>
    have hroom : context.size < nesting + context.callStack.depth :=
      Nat.lt_of_lt_of_le hle (Nat.le_add_right nesting _)
    obtain ⟨result, more, hfirst, hsecond⟩ :=
      coincide_evaluate (Context.nested_of_empty hstack) hroom x lookups
    rw [← ih, hfirst, hsecond]

end EvalM

end Formulary
