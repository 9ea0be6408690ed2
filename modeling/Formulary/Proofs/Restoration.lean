import Formulary.Proofs.CycleReport

/-!
# An evaluation leaves no trace

While names are resolved, their frames are on the stack of the context. Each is taken off again, also
where an error ends the evaluation, so the context behind an evaluation is the context before it
(`EvalM.restores_evaluate`).

Main statement: when names are bound and unbound in a context and expressions are evaluated in it,
in whatever order (`Context.uses`), the evaluations can be left out. The stack stays as it was, the
bindings are those that were made, and each evaluation has the outcome that it has alone. The
contexts of a batch can be taken in any order as well (`Expression.evalInOrder`).
-/

set_option autoImplicit false
set_option relaxedAutoImplicit false

namespace Formulary

/-! ### One evaluation -/

/-- However deep an evaluation goes, and whether or not it fails there, the context is behind it as
it was. -/
theorem EvalM.restores_evaluate (nesting : Nat) (context : Context) (x : Expression) :
    Raises (fun _ ↦ True) context Float (evaluate nesting x) (evaluate nesting x) := by
  induction nesting generalizing context x with
  | zero => exact fun lookups ↦ ⟨_, lookups, rfl, fun _ _ ↦ trivial⟩
  | succ nesting ih =>
    refine Arena.evaluate_related (compatible_raises fun _ _ ↦ trivial) fun name _ ↦ ?_
    exact raises_resolve (fun _ ↦ trivial) (fun _ _ _ _ ↦ trivial)
      fun y _ _ ↦ ih (context.enter ⟨name, y.id⟩) y

theorem EvalM.context_outcome_evaluate (nesting : Nat) (context : Context) (x : Expression)
    (lookups : Array Lookup) :
    (outcome (evaluate nesting x) ⟨context, lookups⟩).2.context = context := by
  obtain ⟨result, more, houtcome, -⟩ := restores_evaluate nesting context x lookups
  rw [houtcome]

theorem Expression.context_eval (expression : Expression) (context : Context) :
    (expression.eval context).context = context :=
  EvalM.context_outcome_evaluate (context.size + 1) context expression #[]

/-! ### A context in use -/

namespace Context

/-- What can be done with a context: names are bound and unbound, and expressions are evaluated. -/
inductive Use
  | add (name : String) (expression : Expression)
  | setValue (supply : Supply) (name : String) (value : Float)
  | compileAndAdd (compiler : Compiler) (supply : Supply) (name text : String)
  | delete (name : String)
  | eval (expression : Expression)

/-- Whether the use is anything but an evaluation. -/
def Use.binds : Use → Bool
  | .eval _ => false
  | _ => true

/-- The evaluation, if the use is one, and the context behind the use. A text that does not compile
is not bound. -/
def use (context : Context) : Use → Option Evaluation × Context
  | .add name expression => (none, context.add name expression)
  | .setValue supply name value => (none, (context.setValue supply name value).1)
  | .compileAndAdd compiler supply name text =>
    match (compiler.compileAndAdd supply context name text).1 with
    | .ok next => (none, next)
    | .error _ => (none, context)
  | .delete name => (none, context.delete name)
  | .eval expression =>
    let evaluation := expression.eval context
    (some evaluation, evaluation.context)

/-- The evaluations among several uses that are made one after the other, and the context behind the
last. -/
def uses (context : Context) : List Use → List (Option Evaluation) × Context
  | [] => ([], context)
  | use :: others =>
    let (evaluation, next) := context.use use
    let (evaluations, last) := next.uses others
    (evaluation :: evaluations, last)

variable (context : Context)

/-- No use leaves anything on the stack. -/
theorem callStack_use (use : Use) : (context.use use).2.callStack = context.callStack := by
  cases use with
  | add name expression => rfl
  | setValue supply name value => rfl
  | compileAndAdd compiler supply name text =>
    rw [Context.use]
    split
    · rename_i next hnext
      obtain ⟨bound, -, rfl⟩ := exists_of_compileAndAdd_eq_ok hnext
      rfl
    · rfl
  | delete name => rfl
  | eval expression => exact congrArg callStack (expression.context_eval context)

theorem use_of_not_binds {use : Use} (h : use.binds = false) : (context.use use).2 = context := by
  cases use with
  | eval expression => exact expression.context_eval context
  | _ => cases h

theorem callStack_uses (uses : List Use) :
    (context.uses uses).2.callStack = context.callStack := by
  induction uses generalizing context with
  | nil => rfl
  | cons use others ih => exact (ih (context.use use).2).trans (context.callStack_use use)

/-- The evaluations can be left out. -/
theorem uses_filter_binds (uses : List Use) :
    (context.uses uses).2 = (context.uses (uses.filter Use.binds)).2 := by
  induction uses generalizing context with
  | nil => rfl
  | cons use others ih =>
    cases hbinds : use.binds with
    | true =>
      rw [List.filter_cons_of_pos hbinds]
      exact ih (context.use use).2
    | false =>
      rw [List.filter_cons_of_neg (by simp [hbinds]), ← ih context]
      exact congrArg (fun next ↦ (uses next others).2) (context.use_of_not_binds hbinds)

/-- What a use is answered depends on the uses before it only through the context behind them. -/
theorem getElem?_uses_append (before : List Use) (use : Use) (after : List Use) :
    (context.uses (before ++ use :: after)).1[before.length]? =
      some ((context.uses before).2.use use).1 := by
  induction before generalizing context with
  | nil => rfl
  | cons first before ih =>
    rw [List.cons_append, List.length_cons, uses, List.getElem?_cons_succ]
    exact ih (context.use first).2

end Context

/-! ### A batch -/

namespace Expression

/-- Evaluates the expression in one of several contexts, and keeps the evaluation beside the
context. -/
def evalSlot (expression : Expression) (slots : List (Context × Option Evaluation)) (index : Nat) :
    List (Context × Option Evaluation) :=
  slots.modify index fun slot ↦
    let evaluation := expression.eval slot.1
    (evaluation.context, some evaluation)

/-- Evaluates the expression in several contexts, in the order in which their indices are listed. -/
def evalInOrder (expression : Expression) (contexts : List Context) (order : List Nat) :
    List (Context × Option Evaluation) :=
  order.foldl expression.evalSlot (contexts.map fun context ↦ (context, none))

variable (expression : Expression)

theorem getElem?_evalSlot (slots : List (Context × Option Evaluation)) (done index : Nat) :
    (expression.evalSlot slots done)[index]? = slots[index]?.map fun slot ↦
      (slot.1, if done = index then some (expression.eval slot.1) else slot.2) := by
  rw [evalSlot, List.getElem?_modify]
  by_cases hindex : done = index
  · simp only [if_pos hindex, context_eval]
    rfl
  · simp only [if_neg hindex]
    rfl

theorem getElem?_foldl_evalSlot (slots : List (Context × Option Evaluation)) (order : List Nat)
    (index : Nat) : (order.foldl expression.evalSlot slots)[index]? = slots[index]?.map fun slot ↦
      (slot.1, if index ∈ order then some (expression.eval slot.1) else slot.2) := by
  induction order generalizing slots with
  | nil => simp
  | cons done order ih =>
    rw [List.foldl_cons, ih, getElem?_evalSlot, Option.map_map]
    refine congrArg (Option.map · slots[index]?) (funext fun slot ↦ ?_)
    by_cases hlater : index ∈ order
    · simp [hlater]
    · simp [hlater, eq_comm]

/-- Each context whose index is listed has the evaluation of a batch, and all contexts are as they
were. -/
theorem getElem?_evalInOrder (contexts : List Context) (order : List Nat) (index : Nat) :
    (expression.evalInOrder contexts order)[index]? = contexts[index]?.map fun context ↦
      (context, if index ∈ order then some (expression.eval context) else none) := by
  rw [evalInOrder, getElem?_foldl_evalSlot, List.getElem?_map, Option.map_map]
  rfl

end Expression

/-! ### Evaluations beside anything else -/

/-- However deep an evaluation goes and however it ends, it leaves the bindings and the stack of the
context as they were. Therefore, whatever is done with a context, its stack is the one that it had,
it binds what it would bind without the evaluations, and each evaluation has the outcome that it has
alone. Of a batch, each context has the outcome of an evaluation in it alone, whatever the order. -/
theorem Context.evaluations_leave_no_trace (context : Context) :
    (∀ nesting x lookups,
      (EvalM.outcome (EvalM.evaluate nesting x) ⟨context, lookups⟩).2.context = context) ∧
    (∀ expression : Expression, (expression.eval context).context = context) ∧
    (∀ uses, (context.uses uses).2.callStack = context.callStack ∧
      (context.uses uses).2 = (context.uses (uses.filter Use.binds)).2) ∧
    (∀ before (expression : Expression) after,
      (context.uses (before ++ .eval expression :: after)).1[before.length]? =
        some (some (expression.eval (context.uses (before.filter Use.binds)).2))) ∧
    ∀ (expression : Expression) contexts order index,
      (expression.evalBatch contexts)[index]? = contexts[index]?.map expression.eval ∧
      (expression.evalInOrder contexts order)[index]? = contexts[index]?.map fun slot ↦
        (slot, if index ∈ order then some (expression.eval slot) else none) := by
  refine ⟨fun nesting x ↦ EvalM.context_outcome_evaluate nesting context x,
    fun expression ↦ expression.context_eval context,
    fun uses ↦ ⟨context.callStack_uses uses, context.uses_filter_binds uses⟩,
    fun before expression after ↦ ?_, fun expression contexts order index ↦ ⟨?_, ?_⟩⟩
  · rw [getElem?_uses_append, uses_filter_binds]
    rfl
  · rw [Expression.evalBatch, List.getElem?_map]
  · exact expression.getElem?_evalInOrder contexts order index

end Formulary
