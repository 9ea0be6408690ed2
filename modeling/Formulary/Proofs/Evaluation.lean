import Formulary.Context.Evaluation

/-!
# The visit of an arena and the resolution of a name

An arena is visited in any monad that has errors. What two visits in different monads have in common
is a relation between actions that is kept when actions are put together (`Compatible`): if it holds
of the meanings of the names that a formula refers to, it holds of the visits
(`Arena.evaluate_related`). Every statement on evaluations below is such a relation.

How an action of an evaluation behaves is said by its outcome (`EvalM.outcome`). The resolution of a
name has three outcomes: the name is not bound, it closes a cycle, or its expression is evaluated
with the name on the stack.
-/

set_option autoImplicit false
set_option relaxedAutoImplicit false

namespace Formulary

/-! ### Two visits -/

section Visits

variable {m n : Type → Type} [Monad m] [MonadExceptOf EvalError m] [Monad n]
  [MonadExceptOf EvalError n]

/-- A relation between the actions of two monads that a visit of an arena keeps. -/
structure Compatible (Related : ∀ α : Type, m α → n α → Prop) : Prop where
  pure : ∀ {α : Type} (a : α), Related α (pure a) (pure a)
  badTree : ∀ {α : Type} (arity count : Nat),
    Related α (throw (.badTree arity count)) (throw (.badTree arity count))
  bind : ∀ {α β : Type} {x : m α} {y : n α} {f : α → m β} {g : α → n β}, Related α x y →
    (∀ a, Related β (f a) (g a)) → Related β (x >>= f) (y >>= g)

variable {Related : ∀ α : Type, m α → n α → Prop} {first : String → m Float}
  {second : String → n Float}

theorem Node.value_related (h : Compatible Related) {node : Node}
    (hnames : ∀ name ∈ node.reference?, Related Float (first name) (second name))
    (values : Array Float) :
    Related Float (node.value first values) (node.value second values) := by
  cases node with
  | literal value => exact h.pure value
  | reference name => exact hnames name rfl
  | operation applied children =>
    rw [value, value]
    cases applied.operands? values children with
    | some operands => exact h.pure (applied.reducer operands)
    | none => exact h.badTree applied.arity children.length

theorem Arena.valuesFrom_related (h : Compatible Related) {nodes : List Node}
    (hnames : ∀ node ∈ nodes, ∀ name ∈ node.reference?, Related Float (first name) (second name))
    (values : Array Float) :
    Related (Array Float) (valuesFrom first values nodes) (valuesFrom second values nodes) := by
  induction nodes generalizing values with
  | nil => exact h.pure values
  | cons node nodes ih =>
    have hnode := Node.value_related h (hnames node List.mem_cons_self) values
    have hpush := h.bind hnode fun value ↦ h.pure (values.push value)
    rw [valuesFrom, valuesFrom, List.foldlM_cons, List.foldlM_cons]
    exact h.bind hpush (ih fun other hother ↦ hnames other (List.mem_cons_of_mem node hother))

/-- Assumes: the meanings of the names that the formula refers to are related. So are the visits. -/
theorem Arena.evaluate_related (h : Compatible Related) {arena : Arena}
    (hnames : ∀ name ∈ arena.references, Related Float (first name) (second name)) :
    Related Float (arena.evaluate first) (arena.evaluate second) := by
  have hnodes : ∀ node ∈ arena.nodes.toList.take (arena.root + 1), ∀ name ∈ node.reference?,
      Related Float (first name) (second name) := by
    intro node hnode name hname
    exact hnames name (List.mem_filterMap.mpr ⟨node, List.mem_of_mem_take hnode, hname⟩)
  refine h.bind (valuesFrom_related h hnodes #[]) fun values ↦ ?_
  cases values.back? with
  | some value => exact h.pure value
  | none => exact h.badTree 1 0

end Visits

/-! ### Outcomes -/

namespace EvalM

theorem outcome_pure {α : Type} (a : α) (progress : Progress) :
    outcome (pure a) progress = (.ok a, progress) := rfl

theorem outcome_throw {α : Type} (error : EvalError) (progress : Progress) :
    outcome (throw error : EvalM α) progress = (.error error, progress) := rfl

theorem outcome_bind_of_ok {α β : Type} {x : EvalM α} {progress behind : Progress} {a : α}
    (h : outcome x progress = (.ok a, behind)) (f : α → EvalM β) :
    outcome (x >>= f) progress = outcome (f a) behind := by
  show (ExceptT.bindCont f (outcome x progress).1).run (outcome x progress).2 = _
  rw [h]
  rfl

theorem outcome_bind_of_error {α β : Type} {x : EvalM α} {progress behind : Progress}
    {error : EvalError} (h : outcome x progress = (.error error, behind)) (f : α → EvalM β) :
    outcome (x >>= f) progress = (.error error, behind) := by
  show (ExceptT.bindCont f (outcome x progress).1).run (outcome x progress).2 = _
  rw [h]
  rfl

theorem outcome_context (progress : Progress) :
    outcome EvalM.context progress = (.ok progress.context, progress) := rfl

section Resolve

variable {evaluate : Expression → EvalM Float} {name : String} {context : Context}

/-- A name that is not bound is not found. -/
theorem outcome_resolve_of_unbound (h : context.find? name = none) (lookups : Array Lookup) :
    outcome (resolve evaluate name) ⟨context, lookups⟩ =
      (.error (.notFound name), ⟨context, lookups.push ⟨name, context.callStack⟩⟩) := by
  refine outcome_bind_of_error ?_ _
  rw [outcome_lookUp, Context.get, h]

variable {x : Expression}

theorem outcome_lookUp_of_bound (h : context.find? name = some x) (lookups : Array Lookup) :
    outcome (lookUp name) ⟨context, lookups⟩ =
      (.ok x, ⟨context, lookups.push ⟨name, context.callStack⟩⟩) := by
  rw [outcome_lookUp, Context.get, h]

/-- A name that is bound to an expression on the stack closes a cycle. -/
theorem outcome_resolve_of_cycle (h : context.find? name = some x) {chain : List String}
    (hcycle : context.callStack.cycle? x.id name = some chain) (lookups : Array Lookup) :
    outcome (resolve evaluate name) ⟨context, lookups⟩ =
      (.error (.cyclicDependency chain), ⟨context, lookups.push ⟨name, context.callStack⟩⟩) := by
  rw [resolve, outcome_bind_of_ok (outcome_lookUp_of_bound h lookups),
    outcome_bind_of_ok (outcome_context _)]
  simp only [hcycle]
  exact outcome_throw _ _

/-- Any other name is resolved with its frame on the stack, which is taken off again. -/
theorem outcome_resolve_of_free (h : context.find? name = some x)
    (hfree : context.callStack.cycle? x.id name = none) (lookups : Array Lookup) :
    outcome (resolve evaluate name) ⟨context, lookups⟩ =
      let inner := outcome (evaluate x)
        ⟨context.enter ⟨name, x.id⟩, lookups.push ⟨name, context.callStack⟩⟩
      (inner.1, { inner.2 with context := inner.2.context.leave }) := by
  rw [resolve, outcome_bind_of_ok (outcome_lookUp_of_bound h lookups),
    outcome_bind_of_ok (outcome_context _)]
  simp only [hfree]
  rw [outcome_within]

end Resolve

end EvalM

end Formulary
