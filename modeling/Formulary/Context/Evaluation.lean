import Formulary.Arena.Evaluation
import Formulary.Context

/-!
# Evaluating an expression in a context

A name is resolved by looking it up in the context and evaluating the expression that it is bound
to, in the same context. Before that, the expression is looked for on the call stack: if it is
there, it would be evaluated inside itself, and the evaluation ends with the cycle. While a name is
resolved its frame is on the stack; it is taken off again whether or not the resolution succeeds
(`EvalM.within`).

The names on the stack are bound to different expressions, so the nesting is bounded by the number
of bindings, and `EvalM.evaluate` recurses on a bound for the nesting. An evaluation reports its
result, the context behind it and the lookups that it made, each with the stack at that time.

Without a context, every reference is an error.
-/

set_option autoImplicit false
set_option relaxedAutoImplicit false

namespace Formulary

/-- A name that was looked up, and the call stack at that time. -/
structure Lookup where
  name : String
  stack : CallStack
  deriving DecidableEq

/-- An evaluation in progress: its context and the lookups so far. -/
structure Progress where
  context : Context
  lookups : Array Lookup

/-- A completed evaluation: its result, the context behind it, and the lookups in their order. -/
structure Evaluation where
  result : Except EvalError Float
  context : Context
  lookups : Array Lookup

/-- Actions of an evaluation. The context and the lookups outlast an error. -/
abbrev EvalM := ExceptT EvalError (StateM Progress)

namespace EvalM

/-- The context as it is now. -/
def context : EvalM Context := return (← get).context

/-- Looks a name up and records that. -/
def lookUp (name : String) : EvalM Expression := ExceptT.mk do
  let context := (← get).context
  modify fun progress ↦ { progress with lookups := progress.lookups.push ⟨name, context.callStack⟩ }
  return context.get name

/-- The outcome of an action and the progress behind it, when it begins at `progress`. -/
def outcome {α : Type} (action : EvalM α) (progress : Progress) : Except EvalError α × Progress :=
  action.run.run progress

theorem outcome_lookUp (name : String) (progress : Progress) :
    outcome (lookUp name) progress = (progress.context.get name, { progress with
      lookups := progress.lookups.push ⟨name, progress.context.callStack⟩ }) := rfl

/-- Runs an action with a frame on the call stack, and takes the frame off again in any case. -/
def within (frame : Frame) (action : EvalM Float) : EvalM Float := ExceptT.mk do
  modify fun progress ↦ { progress with context := progress.context.enter frame }
  let result ← action.run
  modify fun progress ↦ { progress with context := progress.context.leave }
  return result

theorem outcome_within (frame : Frame) (action : EvalM Float) (progress : Progress) :
    outcome (within frame action) progress =
      let inner := outcome action { progress with context := progress.context.enter frame }
      (inner.1, { inner.2 with context := inner.2.context.leave }) := rfl

/-- Resolves a name, given how to evaluate the expression that it is bound to. -/
def resolve (evaluate : Expression → EvalM Float) (name : String) : EvalM Float := do
  let expression ← lookUp name
  match (← context).callStack.cycle? expression.id name with
  | some chain => throw (.cyclicDependency chain)
  | none => within ⟨name, expression.id⟩ (evaluate expression)

/-- Evaluates an expression with a bound for the nesting. When the nesting exceeds the number of
bindings, one expression is on the stack twice, and the search for cycles has found that before. -/
def evaluate : Nat → Expression → EvalM Float
  | 0, _ => do throw (.cyclicDependency (← context).callStack.names)
  | nesting + 1, expression => expression.arena.evaluate (resolve (evaluate nesting))

end EvalM

namespace Expression

/-- Evaluates the expression in a context. -/
def eval (expression : Expression) (context : Context) : Evaluation :=
  let (result, progress) := (EvalM.evaluate (context.size + 1) expression).run ⟨context, #[]⟩
  ⟨result, progress.context, progress.lookups⟩

/-- Evaluates the expression without a context. -/
def evalClosed (expression : Expression) : Except EvalError Float :=
  expression.arena.evaluate fun name ↦ throw (.noContext name)

/-- Evaluates the expression in each of several contexts. -/
def evalBatch (expression : Expression) (contexts : List Context) : List Evaluation :=
  contexts.map expression.eval

end Expression

end Formulary
