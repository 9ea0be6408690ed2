import Formulary.Proofs.Identity
import Formulary.Proofs.Nesting

/-!
# Cycles are found exactly where evaluation does not end

An expression can be evaluated without a stack: every name is replaced by the value of its
expression, however deep that goes (`Context.unguarded`). Such an evaluation has a bound for the
nesting, and no result if it exceeds the bound.

Main statement: the evaluation that looks for cycles has the same value or the same missing name
where this one has, and reports a cycle exactly where this one has no result under any bound. So the
outcome does not depend on which names share an identity.

One half follows the evaluation with a stack: what it results in, unless it is a cycle, results from
the unguarded one (`reflects_unguarded`). For the other half, the formulas on the stack have no
result under the bounds that are still to come: each of them was entered with the least bound under
which it has a result, and bounds only fall (`Context.Carries`). A formula with a result is
therefore never found on the stack (`completes_unguarded`).
-/

set_option autoImplicit false
set_option relaxedAutoImplicit false

namespace Formulary

/-! ### Evaluation without a stack -/

/-- Actions of an evaluation that may go deeper than its bound allows. -/
abbrev UnguardedM := ExceptT EvalError Option

namespace UnguardedM

section Sequence

variable {α β : Type} {x : UnguardedM α} {f : α → UnguardedM β}

theorem run_bind_of_ok {a : α} (h : x.run = some (.ok a)) : (x >>= f).run = (f a).run := by
  show (x.run >>= ExceptT.bindCont f) = _
  rw [h]
  rfl

theorem run_bind_of_error {error : EvalError} (h : x.run = some (.error error)) :
    (x >>= f).run = some (.error error) := by
  show (x.run >>= ExceptT.bindCont f) = _
  rw [h]
  rfl

/-- A sequence that has a result has the result of its second part, or the error of its first. -/
theorem cases_of_run_bind {result : Except EvalError β} (h : (x >>= f).run = some result) :
    (∃ a, x.run = some (.ok a) ∧ (f a).run = some result) ∨
      ∃ error, x.run = some (.error error) ∧ result = .error error := by
  cases hx : x.run with
  | none =>
    have hnone : (x >>= f).run = none := by
      show (x.run >>= ExceptT.bindCont f) = _
      rw [hx]
      rfl
    rw [hnone] at h
    cases h
  | some first =>
    cases first with
    | ok a =>
      rw [run_bind_of_ok hx] at h
      exact Or.inl ⟨a, rfl, h⟩
    | error error =>
      rw [run_bind_of_error hx] at h
      cases h
      exact Or.inr ⟨error, rfl, rfl⟩

end Sequence

end UnguardedM

/-- What a name means, given how to evaluate the expression that it is bound to. -/
def UnguardedM.resolve (context : Context) (evaluate : Expression → UnguardedM Float)
    (name : String) : UnguardedM Float := do
  evaluate (← ExceptT.mk (some (context.get name)))

/-- Evaluates an expression without a stack and without looking for cycles. The bound is for the
nesting of expressions; if it is exceeded, there is no result. -/
def Context.unguarded (context : Context) : Nat → Expression → UnguardedM Float
  | 0, _ => ExceptT.mk none
  | bound + 1, expression => expression.arena.evaluate (.resolve context (context.unguarded bound))

section Unguarded

variable {context : Context} {name : String}

theorem UnguardedM.resolve_of_unbound (h : context.find? name = none)
    (evaluate : Expression → UnguardedM Float) :
    (resolve context evaluate name).run = some (.error (.notFound name)) := by
  rw [resolve, Context.get, h]
  rfl

theorem UnguardedM.resolve_of_bound {x : Expression} (h : context.find? name = some x)
    (evaluate : Expression → UnguardedM Float) : resolve context evaluate name = evaluate x := by
  rw [resolve, Context.get, h]
  rfl

namespace Context

/-- Contexts that bind the same names to the same formulas give a formula the same meaning. -/
theorem unguarded_congr {other : Context}
    (h : ∀ name, (context.find? name).map Expression.arena =
      (other.find? name).map Expression.arena) (bound : Nat) {x y : Expression}
    (hsame : x.arena = y.arena) : context.unguarded bound x = other.unguarded bound y := by
  induction bound generalizing x y with
  | zero => rfl
  | succ bound ih =>
    have hnames : UnguardedM.resolve context (context.unguarded bound) =
        UnguardedM.resolve other (other.unguarded bound) := by
      funext name
      have hname := h name
      cases hfind : context.find? name with
      | none =>
        rw [hfind, Option.map_none, eq_comm, Option.map_eq_none_iff] at hname
        have hfirst := UnguardedM.resolve_of_unbound hfind (context.unguarded bound)
        exact hfirst.trans (UnguardedM.resolve_of_unbound hname _).symm
      | some z =>
        rw [hfind, Option.map_some, eq_comm, Option.map_eq_some_iff] at hname
        obtain ⟨w, hother, harena⟩ := hname
        rw [UnguardedM.resolve_of_bound hfind, UnguardedM.resolve_of_bound hother]
        exact ih harena.symm
    rw [unguarded, unguarded, hsame, hnames]

/-- The stack is of no matter. -/
theorem unguarded_enter (frame : Frame) (bound : Nat) (x : Expression) :
    (context.enter frame).unguarded bound x = context.unguarded bound x := by
  have hsame : ∀ name, ((context.enter frame).find? name).map Expression.arena =
      (context.find? name).map Expression.arena := fun _ ↦ rfl
  exact unguarded_congr hsame bound rfl

end Context

end Unguarded

/-! ### The bound -/

/-- Whether the second action has every result that the first has. -/
def UnguardedM.Extends (α : Type) (first second : UnguardedM α) : Prop :=
  ∀ result, first.run = some result → second.run = some result

theorem UnguardedM.compatible_extends : Compatible Extends where
  pure := fun _ _ h ↦ h
  badTree := fun _ _ _ h ↦ h
  bind := by
    intro α β x y f g hfirst hrest result h
    rcases cases_of_run_bind h with ⟨a, hx, hf⟩ | ⟨error, hx, rfl⟩
    · rw [run_bind_of_ok (hfirst _ hx)]
      exact hrest a result hf
    · exact run_bind_of_error (hfirst _ hx)

/-- Whether the action reports no cycle. -/
def UnguardedM.Acyclic (α : Type) (x _y : UnguardedM α) : Prop :=
  ∀ chain, x.run ≠ some (.error (.cyclicDependency chain))

theorem UnguardedM.compatible_acyclic : Compatible Acyclic where
  pure := fun _ chain h ↦ by cases h
  badTree := fun _ _ chain h ↦ by cases h
  bind := by
    intro α β x y f g hfirst hrest chain h
    rcases cases_of_run_bind h with ⟨a, hx, hf⟩ | ⟨error, hx, herror⟩
    · exact hrest a chain hf
    · cases herror
      exact hfirst chain hx

namespace Context

variable {context : Context}

theorem unguarded_extends (bound : Nat) (x : Expression) :
    UnguardedM.Extends Float (context.unguarded bound x) (context.unguarded (bound + 1) x) := by
  induction bound generalizing x with
  | zero => exact fun _ h ↦ by cases h
  | succ bound ih =>
    refine Arena.evaluate_related UnguardedM.compatible_extends fun name _ ↦ ?_
    cases hfind : context.find? name with
    | none =>
      intro result h
      rw [UnguardedM.resolve_of_unbound hfind] at h ⊢
      exact h
    | some y =>
      rw [UnguardedM.resolve_of_bound hfind, UnguardedM.resolve_of_bound hfind]
      exact ih y

/-- A result under a bound is the result under every greater bound. -/
theorem unguarded_mono {bound greater : Nat} (hle : bound ≤ greater) {x : Expression}
    {result : Except EvalError Float} (h : (context.unguarded bound x).run = some result) :
    (context.unguarded greater x).run = some result := by
  induction hle with
  | refl => exact h
  | step _ ih => exact unguarded_extends _ x result ih

/-- A result under some bound is the result under a least one. -/
theorem exists_least_bound {bound : Nat} {x : Expression} {result : Except EvalError Float}
    (h : (context.unguarded bound x).run = some result) : ∃ least ≤ bound,
      (context.unguarded least x).run = some result ∧
        (context.unguarded (least - 1) x).run = none := by
  induction bound with
  | zero => cases h
  | succ bound ih =>
    cases hbefore : (context.unguarded bound x).run with
    | none => exact ⟨bound + 1, Nat.le_refl _, h, hbefore⟩
    | some before =>
      have hsame := unguarded_mono (Nat.le_succ bound) hbefore
      rw [h] at hsame
      obtain ⟨least, hle, hleast⟩ := ih (hsame ▸ hbefore)
      exact ⟨least, Nat.le_succ_of_le hle, hleast⟩

theorem unguarded_acyclic (bound : Nat) (x : Expression) :
    UnguardedM.Acyclic Float (context.unguarded bound x) (context.unguarded bound x) := by
  induction bound generalizing x with
  | zero => exact fun _ h ↦ by cases h
  | succ bound ih =>
    refine Arena.evaluate_related UnguardedM.compatible_acyclic fun name _ ↦ ?_
    cases hfind : context.find? name with
    | none =>
      intro chain h
      rw [UnguardedM.resolve_of_unbound hfind] at h
      cases h
    | some y =>
      rw [UnguardedM.resolve_of_bound hfind]
      exact ih y

end Context

/-! ### Evaluation with a stack -/

/-- Whether the first action leaves the context as it was and, unless it ends with a cycle, has the
result of the second. -/
def Reflects (context : Context) (α : Type) (x : EvalM α) (y : UnguardedM α) : Prop :=
  ∀ lookups, ∃ result more, EvalM.outcome x ⟨context, lookups⟩ = (result, ⟨context, more⟩) ∧
    ((∃ chain, result = .error (.cyclicDependency chain)) ∨ y.run = some result)

theorem compatible_reflects (context : Context) : Compatible (Reflects context) where
  pure := fun a lookups ↦ ⟨.ok a, lookups, EvalM.outcome_pure a _, Or.inr rfl⟩
  badTree := fun arity count lookups ↦
    ⟨.error (.badTree arity count), lookups, EvalM.outcome_throw _ _, Or.inr rfl⟩
  bind := by
    intro α β x y f g hfirst hrest lookups
    obtain ⟨result, more, houtcome, hresult⟩ := hfirst lookups
    cases result with
    | ok a =>
      have hy : y.run = some (.ok a) := by
        rcases hresult with ⟨chain, hchain⟩ | hy
        · cases hchain
        · exact hy
      rw [EvalM.outcome_bind_of_ok houtcome, UnguardedM.run_bind_of_ok hy]
      exact hrest a more
    | error error =>
      refine ⟨.error error, more, EvalM.outcome_bind_of_error houtcome f, ?_⟩
      rcases hresult with ⟨chain, hchain⟩ | hy
      · cases hchain
        exact Or.inl ⟨chain, rfl⟩
      · exact Or.inr (UnguardedM.run_bind_of_error hy)

/-- What an evaluation with a stack results in, unless it is a cycle, is the result without. -/
theorem reflects_unguarded (nesting : Nat) (context : Context) (x : Expression) :
    Reflects context Float (EvalM.evaluate nesting x) (context.unguarded nesting x) := by
  induction nesting generalizing context x with
  | zero =>
    intro lookups
    exact ⟨.error (.cyclicDependency context.callStack.names), lookups, rfl, Or.inl ⟨_, rfl⟩⟩
  | succ nesting ih =>
    refine Arena.evaluate_related (compatible_reflects context) fun name _ lookups ↦ ?_
    cases hfind : context.find? name with
    | none =>
      exact ⟨_, _, EvalM.outcome_resolve_of_unbound hfind lookups,
        Or.inr (UnguardedM.resolve_of_unbound hfind _)⟩
    | some y =>
      rw [UnguardedM.resolve_of_bound hfind]
      cases hcycle : context.callStack.cycle? y.id name with
      | some chain =>
        exact ⟨_, _, EvalM.outcome_resolve_of_cycle hfind hcycle lookups, Or.inl ⟨chain, rfl⟩⟩
      | none =>
        obtain ⟨result, more, houtcome, hresult⟩ := ih (context.enter ⟨name, y.id⟩) y
          (lookups.push ⟨name, context.callStack⟩)
        rw [Context.unguarded_enter] at hresult
        refine ⟨result, more, ?_, hresult⟩
        rw [EvalM.outcome_resolve_of_free hfind hcycle, houtcome]
        rfl

/-- Whether the first action has every result of the second, and leaves the context as it was. -/
def Completes (context : Context) (α : Type) (x : EvalM α) (y : UnguardedM α) : Prop :=
  ∀ result, y.run = some result → ∀ lookups, ∃ more,
    EvalM.outcome x ⟨context, lookups⟩ = (result, ⟨context, more⟩)

theorem compatible_completes (context : Context) : Compatible (Completes context) where
  pure := by
    intro α a result h lookups
    cases h
    exact ⟨lookups, EvalM.outcome_pure a _⟩
  badTree := by
    intro α arity count result h lookups
    cases h
    exact ⟨lookups, EvalM.outcome_throw _ _⟩
  bind := by
    intro α β x y f g hfirst hrest result h lookups
    rcases UnguardedM.cases_of_run_bind h with ⟨a, hy, hg⟩ | ⟨error, hy, rfl⟩
    · obtain ⟨more, houtcome⟩ := hfirst _ hy lookups
      rw [EvalM.outcome_bind_of_ok houtcome]
      exact hrest a result hg more
    · obtain ⟨more, houtcome⟩ := hfirst _ hy lookups
      exact ⟨more, EvalM.outcome_bind_of_error houtcome f⟩

namespace Context

/-- Whether the expressions on the stack have no result under the bound. -/
def Unfinished (context : Context) (bound : Nat) : Prop :=
  ∀ frame ∈ context.callStack.frames, ∀ x, context.find? frame.name = some x →
    (context.unguarded bound x).run = none

variable {context : Context} {bound : Nat}

theorem Unfinished.of_le (h : context.Unfinished bound) {lower : Nat} (hle : lower ≤ bound) :
    context.Unfinished lower := by
  intro frame hframe x hx
  cases hrun : (context.unguarded lower x).run with
  | none => rfl
  | some result =>
    have hresult := unguarded_mono hle hrun
    rw [h frame hframe x hx] at hresult
    cases hresult

theorem Unfinished.enter (h : context.Unfinished bound) {name : String} {x : Expression}
    (hfind : context.find? name = some x) (hx : (context.unguarded bound x).run = none) :
    (context.enter ⟨name, x.id⟩).Unfinished bound := by
  intro frame hframe y hy
  rw [unguarded_enter]
  rcases List.mem_cons.mp hframe with rfl | hframe
  · rw [find?_enter, hfind] at hy
    cases hy
    exact hx
  · exact h frame hframe y hy

/-- Assumes: the expressions on the stack have no result under a bound under which the given one has
a result. It is none of them. -/
theorem Unfinished.cycle?_eq_none (h : context.Unfinished bound) (hcoherent : context.Coherent)
    (hnested : context.Nested) {name : String} {x : Expression}
    (hfind : context.find? name = some x) {result : Except EvalError Float}
    (hx : (context.unguarded bound x).run = some result) :
    context.callStack.cycle? x.id name = none := by
  refine CallStack.cycle?_eq_none_iff.mpr fun frame hframe hid ↦ ?_
  obtain ⟨y, hy, hyid⟩ := hnested.bound frame hframe
  have harena : y.arena = x.arena := hcoherent hy hfind (hyid.trans hid)
  have hnone := h frame hframe y hy
  rw [unguarded_congr (fun _ ↦ rfl) bound harena, hx] at hnone
  cases hnone

/-- What carries an evaluation with a stack to the result that there is under a bound: the
expressions on the stack have no result below the bound, and the nesting that is left is enough for
the names that are not on the stack. -/
structure Carries (context : Context) (nesting bound : Nat) : Prop where
  coherent : context.Coherent
  nested : context.Nested
  unfinished : context.Unfinished (bound - 1)
  room : nesting + context.callStack.depth = context.size + 1

theorem carries_of_empty (hstack : context.callStack = .empty) (hcoherent : context.Coherent)
    (bound : Nat) : context.Carries (context.size + 1) bound where
  coherent := hcoherent
  nested := nested_of_empty hstack
  unfinished := by
    intro frame hframe
    rw [hstack] at hframe
    cases hframe
  room := by
    rw [hstack]
    rfl

theorem Carries.nesting_pos {nesting : Nat} (h : context.Carries nesting bound) : 0 < nesting := by
  have hdepth := h.nested.depth_le_size
  have hroom := h.room
  omega

/-- Assumes: the expression of a name has a result under the next bound. The name closes no cycle,
and its expression is entered with the least bound under which it has the result. -/
theorem Carries.enter {nesting : Nat} (h : context.Carries (nesting + 1) (bound + 1))
    {name : String} {x : Expression} (hfind : context.find? name = some x)
    {result : Except EvalError Float} (hx : (context.unguarded bound x).run = some result) :
    context.callStack.cycle? x.id name = none ∧ ∃ least ≤ bound,
      (context.unguarded least x).run = some result ∧
        (context.enter ⟨name, x.id⟩).Carries nesting least := by
  have hfree := h.unfinished.cycle?_eq_none h.coherent h.nested hfind hx
  obtain ⟨least, hle, hresult, hbefore⟩ := exists_least_bound hx
  have hlower : context.Unfinished (least - 1) := h.unfinished.of_le (by omega)
  have hroom : nesting + (context.callStack.depth + 1) = context.size + 1 := by
    have hroom := h.room
    omega
  exact ⟨hfree, least, hle, hresult,
    ⟨h.coherent, h.nested.enter hfind hfree, hlower.enter hfind hbefore, hroom⟩⟩

end Context

/-- Assumes: the invariant holds. An evaluation with the stack has the result of the one without. -/
theorem completes_unguarded {context : Context} {nesting bound : Nat}
    (h : context.Carries nesting bound) (x : Expression) :
    Completes context Float (EvalM.evaluate nesting x) (context.unguarded bound x) := by
  induction bound using Nat.strongRecOn generalizing context nesting x with
  | ind bound ih =>
    cases bound with
    | zero => exact fun _ hx ↦ by cases hx
    | succ bound =>
      obtain ⟨inner, rfl⟩ := Nat.exists_eq_add_one_of_ne_zero (Nat.ne_of_gt h.nesting_pos)
      refine Arena.evaluate_related (compatible_completes context) fun name _ result hy lookups ↦ ?_
      cases hfind : context.find? name with
      | none =>
        rw [UnguardedM.resolve_of_unbound hfind] at hy
        cases hy
        exact ⟨_, EvalM.outcome_resolve_of_unbound hfind lookups⟩
      | some y =>
        rw [UnguardedM.resolve_of_bound hfind] at hy
        obtain ⟨hfree, least, hle, hresult, hcarries⟩ := h.enter hfind hy
        rw [← Context.unguarded_enter ⟨name, y.id⟩] at hresult
        obtain ⟨more, houtcome⟩ := ih least (Nat.lt_succ_of_le hle) hcarries y result hresult
          (lookups.push ⟨name, context.callStack⟩)
        refine ⟨more, ?_⟩
        rw [EvalM.outcome_resolve_of_free hfind hfree, houtcome]
        rfl

/-! ### Whole evaluations -/

/-- The error without the chain of a cycle. -/
def EvalError.withoutChain : EvalError → EvalError
  | .cyclicDependency _ => .cyclicDependency []
  | error => error

namespace Expression

variable {context : Context}

theorem result_eval (expression : Expression) (context : Context) :
    (expression.eval context).result =
      (EvalM.outcome (EvalM.evaluate (context.size + 1) expression) ⟨context, #[]⟩).1 := rfl

/-- The result of an evaluation is that of the unguarded one, unless it is a cycle. -/
theorem unguarded_of_eval (context : Context) (expression : Expression) :
    (∃ chain, (expression.eval context).result = .error (.cyclicDependency chain)) ∨
      (context.unguarded (context.size + 1) expression).run =
        some (expression.eval context).result := by
  obtain ⟨result, more, houtcome, hresult⟩ :=
    reflects_unguarded (context.size + 1) context expression #[]
  rw [result_eval, houtcome]
  exact hresult

theorem eval_of_unguarded (hstack : context.callStack = .empty) (hcoherent : context.Coherent)
    {expression : Expression} {bound : Nat} {result : Except EvalError Float}
    (h : (context.unguarded bound expression).run = some result) :
    (expression.eval context).result = result := by
  obtain ⟨more, houtcome⟩ := completes_unguarded (Context.carries_of_empty hstack hcoherent bound)
    expression result h #[]
  rw [result_eval, houtcome]

/-- Assumes: no name is being resolved. There is a cycle where no bound gives a result. -/
theorem eval_cyclic_iff (hstack : context.callStack = .empty) (hcoherent : context.Coherent)
    (expression : Expression) :
    (∃ chain, (expression.eval context).result = .error (.cyclicDependency chain)) ↔
      ∀ bound, (context.unguarded bound expression).run = none := by
  constructor
  · rintro ⟨chain, hchain⟩ bound
    cases h : (context.unguarded bound expression).run with
    | none => rfl
    | some result =>
      rw [eval_of_unguarded hstack hcoherent h] at hchain
      exact absurd (hchain ▸ h) (context.unguarded_acyclic bound expression chain)
  · intro h
    rcases unguarded_of_eval context expression with hcyclic | hresult
    · exact hcyclic
    · rw [h] at hresult
      cases hresult

/-- A result other than a cycle is the result under some bound. -/
theorem eval_eq_iff (hstack : context.callStack = .empty) (hcoherent : context.Coherent)
    (expression : Expression) {result : Except EvalError Float}
    (hresult : ∀ chain, result ≠ .error (.cyclicDependency chain)) :
    (expression.eval context).result = result ↔
      ∃ bound, (context.unguarded bound expression).run = some result := by
  constructor
  · rintro rfl
    rcases unguarded_of_eval context expression with ⟨chain, hchain⟩ | hunguarded
    · exact absurd hchain (hresult chain)
    · exact ⟨context.size + 1, hunguarded⟩
  · rintro ⟨bound, h⟩
    exact eval_of_unguarded hstack hcoherent h

/-- Assumes: no name is being resolved, and one identity stands for one formula. The evaluation has
a value, or misses a name, where evaluation without a stack does under some bound, and it reports a
cycle where that has no result under any bound. Up to the chain of a cycle, its result is that of
every copy, whatever the identities. -/
theorem eval_iff_unguarded (hstack : context.callStack = .empty) (hcoherent : context.Coherent)
    (expression : Expression) :
    (∀ value, (expression.eval context).result = .ok value ↔
      ∃ bound, (context.unguarded bound expression).run = some (.ok value)) ∧
    (∀ name, (expression.eval context).result = .error (.notFound name) ↔
      ∃ bound, (context.unguarded bound expression).run = some (.error (.notFound name))) ∧
    ((∃ chain, (expression.eval context).result = .error (.cyclicDependency chain)) ↔
      ∀ bound, (context.unguarded bound expression).run = none) ∧
    ∀ {other : Context} {copy : Expression}, other.Alike context → other.Coherent →
      copy.arena = expression.arena →
      (copy.eval other).result.mapError EvalError.withoutChain =
        (expression.eval context).result.mapError EvalError.withoutChain := by
  refine ⟨fun value ↦ eval_eq_iff hstack hcoherent expression ?_,
    fun name ↦ eval_eq_iff hstack hcoherent expression ?_,
    eval_cyclic_iff hstack hcoherent expression, fun {other copy} halike hother hsame ↦ ?_⟩
  · intro chain h
    cases h
  · intro chain h
    cases h
  have hempty : other.callStack = .empty := halike.callStack.trans hstack
  have hcongr := fun bound ↦ Context.unguarded_congr halike.find? bound hsame
  rcases unguarded_of_eval context expression with hcyclic | hresult
  · have hnone := (eval_cyclic_iff hstack hcoherent expression).mp hcyclic
    obtain ⟨chain, hchain⟩ := hcyclic
    obtain ⟨another, hanother⟩ :=
      (eval_cyclic_iff hempty hother copy).mpr fun bound ↦ hcongr bound ▸ hnone bound
    rw [hchain, hanother]
    rfl
  · rw [← hcongr] at hresult
    rw [eval_of_unguarded hempty hother hresult]

end Expression

/-! Copies of an expression share its identity. Where two names are bound to copies of a reference
to the second of them, the first name leads to a cycle as well, though it is not part of it. -/

namespace Context

/-- A formula that is a name. -/
def reference (id : ExpressionId) (name : String) : Expression := ⟨id, ⟨#[.reference name], 0⟩⟩

/-- Two names that are bound to copies of one expression, and a number. -/
def twins : Context :=
  ((empty.add "first" (reference ⟨0⟩ "second")).add "second" (reference ⟨0⟩ "second")).add "two"
    ⟨⟨1⟩, .literal 2⟩

/-- The sum of the number with itself. -/
def double : Expression :=
  ⟨⟨2⟩, ⟨#[.reference "two", .reference "two", .operation ⟨"+", 2, .binary (· + ·)⟩ [0, 1]], 2⟩⟩

theorem coherent_twins : twins.Coherent := by
  intro first second x y hx hy hid
  simp only [twins, find?_add, find?_empty] at hx hy
  grind [reference]

theorem eval_iff_unguarded_twins : twins.callStack = .empty ∧ twins.Coherent ∧
    (double.eval twins).result = .ok (2 + 2) ∧
    ∀ bound, (twins.unguarded bound (reference ⟨3⟩ "first")).run = none := by
  have hdouble : (twins.unguarded 2 double).run = some (.ok (2 + 2)) := rfl
  have hcycle : ((reference ⟨3⟩ "first").eval twins).result =
      .error (.cyclicDependency ["first", "second"]) := rfl
  have hfirst := Expression.eval_iff_unguarded rfl coherent_twins double
  have hsecond := Expression.eval_iff_unguarded rfl coherent_twins (reference ⟨3⟩ "first")
  exact ⟨rfl, coherent_twins, (hfirst.1 (2 + 2)).mpr ⟨2, hdouble⟩, hsecond.2.2.1.mp ⟨_, hcycle⟩⟩

end Context

end Formulary
