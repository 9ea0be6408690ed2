import Formulary.Proofs.Checking
import Formulary.Proofs.Dependencies
import Formulary.Proofs.Holdings
import Formulary.Proofs.Vocabulary

/-!
# Nothing goes wrong inside

An evaluation with checks (`Expression.evalChecked`) visits all formulas with checks, also those
that names are bound to, and ends with the first fault.

Main statement: there are no faults, and a bad tree is never reported. With all checks, expressions
have the outcome that they have without them, as deep as they are nested. Neither is an operator
ever unknown to the grammar whose lexer has found it.

What carries it is that the visit of a formula of an expression has no errors of its own, only those
of its names (`Arena.Compiled.evaluate_related`), and that its arena passes all checks.
-/

set_option autoImplicit false
set_option relaxedAutoImplicit false

namespace Formulary

/-! ### Evaluation of expressions -/

/-- Actions of an evaluation with checks. A fault is no result of an evaluation. -/
abbrev CheckedM := ExceptT EvalError (StateT Progress (Except Fault))

namespace CheckedM

/-- The outcome of an action and the progress behind it, unless there is a fault. -/
def outcome {α : Type} (action : CheckedM α) (progress : Progress) :
    Except Fault (Except EvalError α × Progress) :=
  action.run.run progress

/-- An action in which nothing is checked. -/
def unchecked {α : Type} (action : EvalM α) : CheckedM α :=
  ExceptT.mk fun progress ↦ .ok (action.outcome progress)

/-- Runs an action with a frame on the call stack, and takes the frame off again in any case. -/
def within (frame : Frame) (action : CheckedM Float) : CheckedM Float := ExceptT.mk do
  modify fun progress ↦ { progress with context := progress.context.enter frame }
  let result ← action.run
  modify fun progress ↦ { progress with context := progress.context.leave }
  return result

/-- Resolves a name, given how to evaluate the expression that it is bound to. -/
def resolve (evaluate : Expression → CheckedM Float) (name : String) : CheckedM Float := do
  let expression ← unchecked (EvalM.lookUp name)
  match (← unchecked EvalM.context).callStack.cycle? expression.id name with
  | some chain => throwThe EvalError (.cyclicDependency chain)
  | none => within ⟨name, expression.id⟩ (evaluate expression)

/-- Evaluates an expression with checks, with a bound for the nesting as in `EvalM.evaluate`. -/
def evaluate : Nat → Expression → CheckedM Float
  | 0, _ => do
    throwThe EvalError (.cyclicDependency (← unchecked EvalM.context).callStack.names)
  | nesting + 1, expression => expression.arena.checked (resolve (evaluate nesting))

end CheckedM

namespace Expression

/-- Evaluates the expression in a context, with checks. -/
def evalChecked (expression : Expression) (context : Context) : Except Fault Evaluation := do
  let (result, progress) ←
    CheckedM.outcome (CheckedM.evaluate (context.size + 1) expression) ⟨context, #[]⟩
  return ⟨result, progress.context, progress.lookups⟩

/-- Evaluates the expression without a context, with checks. -/
def evalClosedChecked (expression : Expression) : Except Fault (Except EvalError Float) :=
  ExceptT.run (m := Except Fault)
    (expression.arena.checked fun name ↦ throwThe EvalError (.noContext name))

/-- An operation on two operands that has one, and an operand that stands nowhere. -/
example (reducer : Reducer) :
    (Expression.mk ⟨0⟩ ⟨#[.literal 1, .operation ⟨"+", 2, reducer⟩ [0]], 1⟩).evalClosedChecked =
        .error (.operands 2 1) ∧
      (Expression.mk ⟨0⟩ ⟨#[.operation ⟨"sin()", 1, reducer⟩ [7]], 0⟩).evalClosedChecked =
        .error (.index 7 0) := ⟨rfl, rfl⟩

end Expression

/-! ### What compiles is visited without errors of its own -/

section Sequential

variable {m n : Type → Type} [Monad m] [Monad n] [LawfulMonad m] [LawfulMonad n]

/-- A relation between the actions of two monads that is kept when actions are put together. -/
structure Sequential (Related : ∀ α : Type, m α → n α → Prop) : Prop where
  pure : ∀ {α : Type} (a : α), Related α (pure a) (pure a)
  bind : ∀ {α β : Type} {x : m α} {y : n α} {f : α → m β} {g : α → n β}, Related α x y →
    (∀ a, Related β (f a) (g a)) → Related β (x >>= f) (y >>= g)

variable {Related : ∀ α : Type, m α → n α → Prop} {first : String → m Float}
  {second : String → n Float}

theorem Sequential.mapM (h : Sequential Related) {names : List String}
    (hnames : ∀ name ∈ names, Related Float (first name) (second name)) :
    Related (List Float) (names.mapM first) (names.mapM second) := by
  induction names with
  | nil => exact h.pure []
  | cons name names ih =>
    rw [List.mapM_cons, List.mapM_cons]
    refine h.bind (hnames name List.mem_cons_self) fun value ↦ ?_
    exact h.bind (ih fun other hother ↦ hnames other (List.mem_cons_of_mem name hother))
      fun values ↦ h.pure (value :: values)

/-- Assumes: the meanings of the names that a formula refers to are related. If it is the formula of
an expression, nothing has to be known of errors of the visits themselves. -/
theorem Arena.Compiled.evaluate_related [MonadExceptOf EvalError m] [MonadExceptOf EvalError n]
    {arena : Arena} (harena : arena.Compiled) (h : Sequential Related)
    (hnames : ∀ name ∈ arena.references, Related Float (first name) (second name)) :
    Related Float (arena.evaluate first) (arena.evaluate second) := by
  obtain ⟨combine, hcombine⟩ := harena.exists_combine
  rw [hcombine, hcombine, map_eq_pure_bind, map_eq_pure_bind]
  exact h.bind (h.mapM hnames) fun values ↦ h.pure (combine values)

end Sequential

theorem Arena.Compiled.isPostOrder {arena : Arena} (h : arena.Compiled) : arena.IsPostOrder := by
  obtain ⟨tree, hwf, rfl⟩ := h.exists_tree
  exact hwf.isPostOrder_arena

/-! ### No faults -/

namespace CheckedM

/-- Whether two actions that begin with the context have one outcome, which is no fault and no bad
tree, and leave the context as it was. -/
def Passes (context : Context) (α : Type) (x : CheckedM α) (y : EvalM α) : Prop :=
  ∀ lookups, ∃ result more, outcome x ⟨context, lookups⟩ = .ok (result, ⟨context, more⟩) ∧
    EvalM.outcome y ⟨context, lookups⟩ = (result, ⟨context, more⟩) ∧
    ∀ arity count, result ≠ .error (.badTree arity count)

theorem outcome_bind_of_ok {α β : Type} {x : CheckedM α} {progress behind : Progress} {a : α}
    (h : outcome x progress = .ok (.ok a, behind)) (f : α → CheckedM β) :
    outcome (x >>= f) progress = outcome (f a) behind := by
  show outcome x progress >>= (fun r ↦ (ExceptT.bindCont f r.1).run r.2) = _
  rw [h]
  rfl

theorem outcome_bind_of_error {α β : Type} {x : CheckedM α} {progress behind : Progress}
    {error : EvalError} (h : outcome x progress = .ok (.error error, behind))
    (f : α → CheckedM β) : outcome (x >>= f) progress = .ok (.error error, behind) := by
  show outcome x progress >>= (fun r ↦ (ExceptT.bindCont f r.1).run r.2) = _
  rw [h]
  rfl

theorem outcome_context (progress : Progress) :
    outcome (unchecked EvalM.context) progress = .ok (.ok progress.context, progress) := rfl

theorem sequential_passes (context : Context) : Sequential (Passes context) where
  pure := fun a lookups ↦ ⟨.ok a, lookups, rfl, rfl, fun _ _ hsame ↦ by cases hsame⟩
  bind := by
    intro α β x y f g hfirst hrest lookups
    obtain ⟨result, more, hx, hy, hbad⟩ := hfirst lookups
    cases result with
    | ok a =>
      rw [outcome_bind_of_ok hx, EvalM.outcome_bind_of_ok hy]
      exact hrest a more
    | error error =>
      refine ⟨.error error, more, outcome_bind_of_error hx f, EvalM.outcome_bind_of_error hy g,
        fun arity count hsame ↦ hbad arity count ?_⟩
      cases hsame
      rfl

section Resolve

variable {checked : Expression → CheckedM Float} {evaluate : Expression → EvalM Float}
  {name : String} {context : Context}

/-- Assumes: the expression of a name that closes no cycle passes all checks. So does the resolution
of the name. -/
theorem passes_resolve (h : ∀ x, context.find? name = some x →
      context.callStack.cycle? x.id name = none →
      Passes (context.enter ⟨name, x.id⟩) Float (checked x) (evaluate x)) :
    Passes context Float (resolve checked name) (EvalM.resolve evaluate name) := by
  intro lookups
  have hlookUp : outcome (unchecked (EvalM.lookUp name)) ⟨context, lookups⟩ =
      .ok (context.get name, ⟨context, lookups.push ⟨name, context.callStack⟩⟩) := rfl
  cases hfind : context.find? name with
  | none =>
    rw [Context.get, hfind] at hlookUp
    exact ⟨.error (.notFound name), _, outcome_bind_of_error hlookUp _,
      EvalM.outcome_resolve_of_unbound hfind lookups, fun _ _ hsame ↦ by cases hsame⟩
  | some x =>
    rw [Context.get, hfind] at hlookUp
    cases hcycle : context.callStack.cycle? x.id name with
    | some chain =>
      have hrun : outcome (resolve checked name) ⟨context, lookups⟩ =
          .ok (.error (.cyclicDependency chain),
            ⟨context, lookups.push ⟨name, context.callStack⟩⟩) := by
        rw [resolve, outcome_bind_of_ok hlookUp, outcome_bind_of_ok (outcome_context _)]
        simp only [hcycle]
        rfl
      exact ⟨_, _, hrun, EvalM.outcome_resolve_of_cycle hfind hcycle lookups,
        fun _ _ hsame ↦ by cases hsame⟩
    | none =>
      have hrun : outcome (resolve checked name) ⟨context, lookups⟩ =
          outcome (checked x) ⟨context.enter ⟨name, x.id⟩,
              lookups.push ⟨name, context.callStack⟩⟩ >>= fun inner ↦
            .ok (inner.1, { inner.2 with context := inner.2.context.leave }) := by
        rw [resolve, outcome_bind_of_ok hlookUp, outcome_bind_of_ok (outcome_context _)]
        simp only [hcycle]
        rfl
      obtain ⟨result, more, hchecked, hevaluate, hbad⟩ := h x hfind hcycle
        (lookups.push ⟨name, context.callStack⟩)
      refine ⟨result, more, ?_, ?_, hbad⟩
      · rw [hrun, hchecked]
        rfl
      · rw [EvalM.outcome_resolve_of_free hfind hcycle, hevaluate]
        rfl

end Resolve

/-- Assumes: a context that binds formulas of expressions only. An evaluation in it passes all
checks, however deep it goes. -/
theorem passes_evaluate {context : Context} (hcontext : context.Compiled) (nesting : Nat)
    {x : Expression} (hx : x.arena.Compiled) :
    Passes context Float (evaluate nesting x) (EvalM.evaluate nesting x) := by
  induction nesting generalizing context x with
  | zero =>
    exact fun lookups ↦ ⟨.error (.cyclicDependency context.callStack.names), lookups, rfl, rfl,
      fun _ _ hsame ↦ by cases hsame⟩
  | succ nesting ih =>
    rw [evaluate, hx.isPostOrder.checked_eq_evaluate]
    refine hx.evaluate_related (sequential_passes context) fun name _ ↦ ?_
    refine passes_resolve fun y hfind _ ↦ ?_
    have hinner : (context.enter ⟨name, y.id⟩).Compiled := fun _ _ h ↦ hcontext h
    exact ih hinner (hcontext hfind)

end CheckedM

namespace Expression

variable {expression : Expression}

theorem evalChecked_eq_ok (h : expression.arena.Compiled) {context : Context}
    (hcontext : context.Compiled) :
    expression.evalChecked context = .ok (expression.eval context) ∧
      ∀ arity count, (expression.eval context).result ≠ .error (.badTree arity count) := by
  obtain ⟨result, more, hchecked, hevaluate, hbad⟩ :=
    CheckedM.passes_evaluate hcontext (context.size + 1) h #[]
  have heval : expression.eval context = ⟨result, context, more⟩ :=
    congrArg (fun outcome ↦ Evaluation.mk outcome.1 outcome.2.context outcome.2.lookups) hevaluate
  rw [evalChecked, hchecked, heval]
  exact ⟨rfl, hbad⟩

/-- Whether two actions without a context have one result, which is no fault and no bad tree. -/
def PassesClosed (α : Type) (x : ExceptT EvalError (Except Fault) α) (y : Except EvalError α) :
    Prop :=
  x.run = .ok y ∧ ∀ arity count, y ≠ .error (.badTree arity count)

theorem sequential_passesClosed : Sequential PassesClosed where
  pure := fun a ↦ ⟨rfl, fun _ _ hsame ↦ by cases hsame⟩
  bind := by
    rintro α β x y f g ⟨hx, hbad⟩ hrest
    cases y with
    | ok a =>
      have hrun : (x >>= f).run = (f a).run := by
        show x.run >>= ExceptT.bindCont f = _
        rw [hx]
        rfl
      exact ⟨hrun.trans (hrest a).1, (hrest a).2⟩
    | error error =>
      have hrun : (x >>= f).run = .ok (.error error) := by
        show x.run >>= ExceptT.bindCont f = _
        rw [hx]
        rfl
      refine ⟨hrun, fun arity count hsame ↦ hbad arity count ?_⟩
      cases hsame
      rfl

theorem evalClosedChecked_eq_ok (h : expression.arena.Compiled) :
    expression.evalClosedChecked = .ok expression.evalClosed ∧
      ∀ arity count, expression.evalClosed ≠ .error (.badTree arity count) := by
  rw [evalClosedChecked, h.isPostOrder.checked_eq_evaluate]
  exact h.evaluate_related sequential_passesClosed fun name _ ↦
    ⟨rfl, fun _ _ hsame ↦ by cases hsame⟩

end Expression

/-! ### Reducers that are called without a fault -/

/-- Whether a reducer of a fixed number of operands is given that many, so that it combines them. -/
inductive Reducer.Combines : Reducer → List Float → Prop
  | nullary (value : Float) : Combines (.nullary value) []
  | unary (f : Float → Float) (x : Float) : Combines (.unary f) [x]
  | binary (f : Float → Float → Float) (x y : Float) : Combines (.binary f) [x, y]

section Calls

variable {operands : List Float} {value : Float}

theorem Operation.of_call_eq_ok {operation : Operation}
    (h : operation.call operands = .ok value) :
    operands.length = operation.arity ∧ value = operation.reducer operands := by
  rw [call] at h
  split at h
  · rename_i hlength
    exact ⟨hlength, (Except.ok.inj h).symm⟩
  · cases h

/-- An operator that is called has both of its operands. -/
theorem Operator.exists_of_call_eq_ok {o : Operator} (h : o.operation.call operands = .ok value) :
    ∃ x y, operands = [x, y] ∧ value = o.combine x y := by
  obtain ⟨hlength, rfl⟩ := Operation.of_call_eq_ok h
  obtain ⟨x, y, rfl⟩ := List.length_eq_two.mp hlength
  exact ⟨x, y, rfl, rfl⟩

theorem Reducer.combines_nullary (h : operands.length = 0) (value : Float) :
    Combines (.nullary value) operands := by
  rw [List.eq_nil_of_length_eq_zero h]
  exact .nullary value

theorem Reducer.combines_unary (h : operands.length = 1) (f : Float → Float) :
    Combines (.unary f) operands := by
  obtain ⟨x, rfl⟩ := List.length_eq_one_iff.mp h
  exact .unary f x

theorem Reducer.combines_binary (h : operands.length = 2) (f : Float → Float → Float) :
    Combines (.binary f) operands := by
  obtain ⟨x, y, rfl⟩ := List.length_eq_two.mp h
  exact .binary f x y

/-- A built-in function is made for the number of operands that it is registered with. -/
theorem Builtin.combines_of_mem {draw : Float} {f : NamedFunction} (hf : f ∈ functions draw)
    (h : operands.length = f.arity) : f.reducer.Combines operands := by
  simp only [functions, List.mem_cons, List.not_mem_nil, or_false] at hf
  rcases hf with rfl | rfl | rfl | rfl | rfl | rfl | rfl | rfl | rfl | rfl | rfl | rfl | rfl | rfl |
    rfl | rfl
  all_goals first
    | exact Reducer.combines_unary h _
    | exact Reducer.combines_binary h _
    | exact Reducer.combines_nullary h _

theorem Grammar.mem_of_function?_foldl {functions : List NamedFunction} {g : Grammar}
    {name : String} {f : NamedFunction}
    (h : (functions.foldl insertFunction g).function? name = some f) :
    f ∈ functions ∨ g.function? name = some f := by
  induction functions generalizing g with
  | nil => exact Or.inr h
  | cons first functions ih =>
    rcases ih h with hother | hfirst
    · exact Or.inl (List.mem_cons_of_mem first hother)
    · rw [function?_insertFunction] at hfirst
      split at hfirst
      · cases hfirst
        exact Or.inl List.mem_cons_self
      · exact Or.inr hfirst

/-- The functions of the standard grammar are the built-in functions. -/
theorem Grammar.mem_functions_of_standard {draw : Float} {name : String} {f : NamedFunction}
    (h : (standard draw).function? name = some f) : f ∈ Builtin.functions draw := by
  have hnone : arithmetic.function? name = none := by
    show (∅ : Std.ExtTreeMap String NamedFunction)[name]? = none
    exact Std.ExtTreeMap.getElem?_empty
  rcases mem_of_function?_foldl h with hmem | hold
  · exact hmem
  · rw [hnone] at hold
    cases hold

end Calls

/-! ### No unknown operators and no faults -/

/-- Whatever a grammar is, every operator token that is cut off a text has an operator in it, no
text fails to compile for want of one, and the operations of what compiles are its own. Expressions
of numbers and of what compiles are evaluated without a fault and without a bad tree, alone and in
every context that binds such expressions only: with all checks, the outcome is the same. When a
call is without a fault, an operator has both of its operands, and a function of the standard
grammar has as many as it is made for. Nothing else is ever held in a studio than such
expressions. -/
theorem no_unknown_operator_and_no_fault :
    (∀ (g : Grammar) (text : String),
      (∀ token ∈ (Lexer.run g (.ofText text)).tokens, token.kind = .operator →
        ∃ o, g.operator? token.text = some o) ∧
      (∀ symbol, g.compile text ≠ .error (.unknownOperator symbol)) ∧
      ∀ arena, g.compile text = .ok arena → ∀ index applied children,
        arena.node? index = some (.operation applied children) → g.Provides applied) ∧
    (∀ (compiler : Compiler) supply text symbol,
      (compiler.compile supply text).1 ≠ .error (.unknownOperator symbol)) ∧
    (∀ expression : Expression, expression.arena.Compiled →
      (∀ context : Context, context.Compiled →
        expression.evalChecked context = .ok (expression.eval context) ∧
        ∀ arity count, (expression.eval context).result ≠ .error (.badTree arity count)) ∧
      expression.evalClosedChecked = .ok expression.evalClosed ∧
      ∀ arity count, expression.evalClosed ≠ .error (.badTree arity count)) ∧
    (∀ (o : Operator) operands value, o.operation.call operands = .ok value →
      ∃ x y, operands = [x, y] ∧ value = o.combine x y) ∧
    (∀ draw name f, (Grammar.standard draw).function? name = some f → ∀ operands value,
      f.operation.call operands = .ok value → f.reducer.Combines operands) ∧
    ∀ draw requests, let workspace := ((Studio.initial draw).steps requests).2.workspace
      (∀ x, workspace.Holds x → x.arena.Compiled) ∧
      ∀ (name : String) (context : Context),
        workspace.contexts[name]? = some context → context.Compiled := by
  refine ⟨fun g text ↦ ⟨fun token htoken ↦ ?_, g.compile_ne_unknownOperator text,
      fun arena harena index applied children hnode ↦ ?_⟩,
    fun compiler supply text symbol ↦ compiler.compile_ne_unknownOperator supply text symbol,
    fun expression h ↦ ⟨fun context hcontext ↦ Expression.evalChecked_eq_ok h hcontext,
      Expression.evalClosedChecked_eq_ok h⟩,
    fun o operands value hcall ↦ Operator.exists_of_call_eq_ok hcall,
    fun draw name f hfunction operands value hcall ↦ ?_, fun draw requests ↦ ?_⟩
  · exact (Lexer.runs_run g text.toList).operator?_of_mem htoken
  · exact Grammar.provides_of_compile harena applied children (Array.mem_of_getElem? hnode)
  · exact Builtin.combines_of_mem (Grammar.mem_functions_of_standard hfunction)
      (Operation.of_call_eq_ok hcall).1
  · have hstart : (Studio.initial draw).workspace.HoldsOnly fun x ↦ x.arena.Compiled :=
      fun x hx ↦ (Workspace.not_holds_initial draw x hx).elim
    have hheld := Studio.compiled_steps hstart requests
    exact ⟨fun x hx ↦ hheld hx, fun name context hcontext ↦ hheld.context hcontext⟩

/-- A function of two operands and a difference, with a name that is bound to a sum. -/
theorem no_unknown_operator_and_no_fault_nested : ∃ sum difference : Arena,
    Grammar.standard.compile "1 + 2" = .ok sum ∧
    Grammar.standard.compile "atan2(x, 1) - x" = .ok difference ∧
    let context := Context.empty.add "x" ⟨⟨0⟩, sum⟩
    (Expression.mk ⟨1⟩ difference).evalChecked context =
      .ok ((Expression.mk ⟨1⟩ difference).eval context) := by
  have hcompiles : (Grammar.standard.compile "1 + 2").isOk = true ∧
      (Grammar.standard.compile "atan2(x, 1) - x").isOk = true := by decide +kernel
  obtain ⟨sum, hsum⟩ := exists_of_isOk hcompiles.1
  obtain ⟨difference, hdifference⟩ := exists_of_isOk hcompiles.2
  have hcontext : (Context.empty.add "x" ⟨⟨0⟩, sum⟩).Compiled :=
    Context.BindsOnly.add (S := fun x ↦ x.arena.Compiled) Context.bindsOnly_empty "x" (.text hsum)
  exact ⟨sum, difference, hsum, hdifference,
    ((no_unknown_operator_and_no_fault.2.2.1 ⟨⟨1⟩, difference⟩ (.text hdifference)).1 _ hcontext).1⟩

end Formulary
