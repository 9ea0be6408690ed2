import Formulary.Workspace

/-!
# Studios

A grammar need not belong to a compiler. A studio keeps grammars under names of their own beside a
workspace. Such a grammar is extended directly, texts can be compiled with it as it is, and
compilers are made with copies of it; a copy can be taken of the grammar of a compiler as well.
Replacing the grammar of a compiler is a change of this grammar, and so empties the cache.

A studio also copies expressions that the workspace keeps. Everything else is left to the workspace
(`Request.command`).
-/

set_option autoImplicit false
set_option relaxedAutoImplicit false

namespace Formulary

/-- Grammars by name, and a workspace beside them. -/
structure Studio where
  grammars : Std.ExtTreeMap String Grammar
  workspace : Workspace

/-- What can be asked of a studio. -/
inductive Request
  /-- Gives a command to the workspace. -/
  | command (address : Address) (command : Command)
  /-- Keeps a grammar. -/
  | newGrammar (name : String) (grammar : Grammar)
  /-- Keeps a copy of a grammar. -/
  | copyGrammar (name copyAs : String)
  /-- Keeps a copy of the grammar of a compiler. -/
  | takeGrammar (compiler copyAs : String)
  /-- Registers an operator with a grammar. -/
  | registerOperator (name : String) (o : Operator)
  /-- Registers a function with a grammar. -/
  | registerFunction (name : String) (f : NamedFunction)
  /-- Takes a function out of a grammar. -/
  | removeFunction (name function : String)
  /-- Makes a compiler anew, with a copy of a grammar and a cache of a capacity. -/
  | newCompiler (name compiler : String) (capacity : Nat)
  /-- Replaces the grammar of a compiler by a copy of a grammar. -/
  | replaceGrammar (name compiler : String)
  /-- Compiles a text with a grammar. -/
  | build (name text : String) (keepAs : Option String)
  /-- Keeps a copy of an expression. -/
  | copyExpression (handle copyAs : String)

/-- Why a request fails. -/
inductive Refusal
  | noGrammar (name : String)
  | failed (cause : Failure)
  deriving DecidableEq

/-- The wording of a refusal. -/
def Refusal.message : Refusal → String
  | .noGrammar name => "no grammar " ++ name
  | .failed cause => cause.message

namespace Studio

/-- The studio to begin with: no grammars beside the workspace to begin with. -/
def initial (draw : Float := default) : Studio := ⟨∅, .initial draw⟩

/-- What comes of a request, and the studio behind it. -/
abbrev Outcome := Except Refusal Answer × Studio

variable (studio : Studio)

/-! ### Grammars -/

/-- Keeps a grammar. -/
def keepGrammar (name : String) (grammar : Grammar) : Outcome :=
  (.ok .done, { studio with grammars := studio.grammars.insert name grammar })

/-- Goes on with a grammar, if there is one of the name. -/
def withGrammar (name : String) (next : Grammar → Outcome) : Outcome :=
  match studio.grammars[name]? with
  | none => (.error (.noGrammar name), studio)
  | some grammar => next grammar

/-- Lets a grammar try a change, which leaves it as it is when it fails. -/
def tryGrammar (name : String) (change : Grammar → Except RegistrationError Grammar) : Outcome :=
  studio.withGrammar name fun grammar ↦
    match change grammar with
    | .error error => (.error (.failed (.registration error)), studio)
    | .ok grammar => studio.keepGrammar name grammar

/-! ### The workspace -/

/-- Carries out an action in the workspace. -/
def perform (action : WorkspaceM Answer) : Outcome :=
  let (answer, workspace) := action.run studio.workspace
  (answer.mapError .failed, { studio with workspace := workspace })

/-- Goes on with a compiler of the workspace, if there is one of the name. -/
def withCompiler (name : String) (next : Compiler → Outcome) : Outcome :=
  match studio.workspace.compilers[name]? with
  | none => (.error (.failed (.noCompiler name)), studio)
  | some compiler => next compiler

/-- Compiles a text with a grammar, and keeps the expression in the workspace. -/
def built (grammar : Grammar) (text : String) (keepAs : Option String) : WorkspaceM Answer := do
  let (expression, supply) ←
    MonadExcept.ofExcept ((Compiler.build grammar (← get).supply text).mapError .compile)
  WorkspaceM.setSupply supply
  WorkspaceM.keep expression keepAs

/-! ### The requests -/

/-- Carries out a request: the answer or the refusal, and the studio behind it. -/
def step : Request → Outcome
  | .command address command => studio.perform (WorkspaceM.perform address command)
  | .newGrammar name grammar => studio.keepGrammar name grammar
  | .copyGrammar name copyAs => studio.withGrammar name (studio.keepGrammar copyAs)
  | .takeGrammar compiler copyAs =>
    studio.withCompiler compiler fun compiler ↦ studio.keepGrammar copyAs compiler.grammar
  | .registerOperator name o => studio.tryGrammar name (·.registerOperator o)
  | .registerFunction name f => studio.tryGrammar name (·.registerFunction f)
  | .removeFunction name function =>
    studio.withGrammar name fun grammar ↦
      (.ok (.function (grammar.function? function)),
        (studio.keepGrammar name (grammar.removeFunction function)).2)
  | .newCompiler name compiler capacity =>
    studio.withGrammar name fun grammar ↦
      studio.perform do
        WorkspaceM.setCompiler compiler (.new grammar capacity)
        return .done
  | .replaceGrammar name compiler =>
    studio.withGrammar name fun grammar ↦
      studio.withCompiler compiler fun owner ↦
        studio.perform do
          WorkspaceM.setCompiler compiler (owner.modifyGrammar fun _ ↦ grammar)
          return .done
  | .build name text keepAs =>
    studio.withGrammar name fun grammar ↦ studio.perform (built grammar text keepAs)
  | .copyExpression handle copyAs =>
    studio.perform do
      let expression ← WorkspaceM.kept handle
      WorkspaceM.keep expression (some copyAs)

/-- Carries out requests one after the other. -/
def steps (studio : Studio) : List Request → List (Except Refusal Answer) × Studio
  | [] => ([], studio)
  | request :: others =>
    let (answer, studio) := studio.step request
    let (answers, studio) := studio.steps others
    (answer :: answers, studio)

end Studio

end Formulary
