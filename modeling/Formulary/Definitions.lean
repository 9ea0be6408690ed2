import Formulary.Compiler
import Formulary.Context.Evaluation

/-!
# Definitions

A context can be given by a list of definitions: names with formulas or with numbers. Each formula
is an expression of its own, and of several definitions of one name the last one counts
(`Context.ofDefinitions`). Formulas that are compiled for one evaluation only need no compiler; they
use the standard grammar (`evaluateText`).
-/

set_option autoImplicit false
set_option relaxedAutoImplicit false

namespace Formulary

/-- What a name stands for. -/
inductive Definition
  | formula (text : String)
  | constant (value : Float)

/-- Adds a definition to a context. -/
def Context.define (context : Context) (supply : Supply) (name : String) (definition : Definition)
    (draw : Float := default) : Except CompileError (Context × Supply) :=
  match definition with
  | .constant value => return context.setValue supply name value
  | .formula text => do
    let (expression, supply) ← Compiler.build (.standard draw) supply text
    return (context.add name expression, supply)

/-- The context with the given definitions. The first formula that does not compile is the error. -/
def Context.ofDefinitions (supply : Supply) (definitions : List (String × Definition))
    (draw : Float := default) : Except CompileError (Context × Supply) :=
  definitions.foldlM
    (fun (context, supply) (name, definition) ↦ context.define supply name definition draw)
    (Context.empty, supply)

/-- The contexts with the given definitions, which share no expression. -/
def Context.listOfDefinitions (supply : Supply) (contexts : List (List (String × Definition)))
    (draw : Float := default) : Except CompileError (List Context × Supply) :=
  match contexts with
  | [] => return ([], supply)
  | definitions :: others => do
    let (context, supply) ← Context.ofDefinitions supply definitions draw
    let (contexts, supply) ← Context.listOfDefinitions supply others draw
    return (context :: contexts, supply)

/-- Why a text has no value. -/
inductive TextError
  | compile (error : CompileError)
  | eval (error : EvalError)
  deriving DecidableEq

/-- The wording of the error. -/
def TextError.message : TextError → String
  | .compile error => error.message
  | .eval error => error.message

/-- Compiles a text and evaluates it in a context, or without one. -/
def evaluateText (supply : Supply) (text : String) (context? : Option Context)
    (draw : Float := default) : Except TextError Float := do
  let (expression, _) ← (Compiler.build (.standard draw) supply text).mapError .compile
  match context? with
  | some context => (expression.eval context).result.mapError .eval
  | none => expression.evalClosed.mapError .eval

end Formulary
