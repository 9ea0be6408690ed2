import Formulary.Compiler
import Formulary.Context.Evaluation

/-!
# Workspaces

A workspace holds compilers, contexts and expressions under names of their own, and the supply of
identities that they share. It changes by commands, one after the other, and answers each of them
(`Workspace.step`). A command is addressed to one compiler and one context; both must exist, unless
the command makes a new one or concerns neither. A command that fails answers why, and leaves of the
workspace what the operation behind it leaves: a failing registration empties the cache of its
compiler, and every other failing command changes nothing.

Expressions that a command makes or finds can be kept under a name. Copies of a context share the
expressions that it binds.
-/

set_option autoImplicit false
set_option relaxedAutoImplicit false

namespace Formulary

/-- Compilers, contexts and expressions by name, and the identities that are left. -/
structure Workspace where
  compilers : Std.ExtTreeMap String Compiler
  contexts : Std.ExtTreeMap String Context
  expressions : Std.ExtTreeMap String Expression
  supply : Supply

/-- The compiler and the context that a command is addressed to, by name. -/
structure Address where
  compiler : String
  context : String

/-- What can be asked of a workspace. -/
inductive Command
  /-- Makes the compiler anew, with a grammar and a cache of a capacity. -/
  | newCompiler (grammar : Grammar) (capacity : Nat)
  /-- Makes the context anew; it binds nothing. -/
  | newContext
  /-- Makes an expression of a number. -/
  | literal (value : Float) (keepAs : Option String)
  /-- Compiles a text with the compiler. -/
  | compile (text : String) (keepAs : Option String)
  /-- Compiles a text with the grammar of the compiler, without its cache. -/
  | build (text : String) (keepAs : Option String)
  /-- Registers an operator with the compiler. -/
  | registerOperator (o : Operator)
  /-- Registers a function with the compiler. -/
  | registerFunction (f : NamedFunction)
  /-- Takes a function out of the grammar of the compiler. -/
  | removeFunction (name : String)
  /-- Asks for the grammar of the compiler as if to change it. -/
  | touchGrammar
  /-- Looks a function up in the grammar of the compiler. -/
  | function (name : String)
  /-- Cuts a text into tokens by the grammar of the compiler. -/
  | lex (text : String)
  /-- Shows the arena of an expression. -/
  | tree (handle : String)
  /-- Binds a name in the context to an expression. -/
  | add (name handle : String)
  /-- Binds a name in the context to a number. -/
  | setValue (name : String) (value : Float)
  /-- Compiles a text with the compiler and binds a name in the context to it. -/
  | compileAndAdd (name text : String)
  /-- Unbinds a name in the context. -/
  | delete (name : String)
  /-- Asks whether the context binds a name. -/
  | contains (name : String)
  /-- Asks for the number of names that the context binds. -/
  | size
  /-- Looks a name up in the context. -/
  | get (name : String) (keepAs : Option String)
  /-- Copies the context. -/
  | copyContext (copyAs : String)
  /-- Evaluates an expression in the context. -/
  | eval (handle : String)
  /-- Evaluates an expression without a context. -/
  | evalClosed (handle : String)

/-- What a workspace answers to a command that does not fail. An evaluation in a context is answered
in full even when it has no value. -/
inductive Answer
  | done
  | expression (expression : Expression)
  | function (f : Option NamedFunction)
  | tokens (run : LexerRun)
  | size (size : Nat)
  | deleted (expression : Option Expression) (size : Nat)
  | contains (isBound : Bool)
  | evaluation (evaluation : Evaluation)
  | value (value : Float)

/-- Why a command fails. -/
inductive Failure
  | noCompiler (name : String)
  | noContext (name : String)
  | noExpression (name : String)
  | compile (error : CompileError)
  | registration (error : RegistrationError)
  | eval (error : EvalError)
  deriving DecidableEq

/-- The wording of a failure. -/
def Failure.message : Failure → String
  | .noCompiler name => "no compiler " ++ name
  | .noContext name => "no context " ++ name
  | .noExpression name => "no expression " ++ name
  | .compile error => error.message
  | .registration error => error.message
  | .eval error => error.message

/-- Actions on a workspace. What they have changed before a failure stays changed. -/
abbrev WorkspaceM := ExceptT Failure (StateM Workspace)

namespace WorkspaceM

/-! ### Finding and keeping -/

/-- The compiler and the context at an address. -/
def addressed (address : Address) : WorkspaceM (Compiler × Context) := do
  let workspace ← get
  match workspace.compilers[address.compiler]?, workspace.contexts[address.context]? with
  | none, _ => throw (.noCompiler address.compiler)
  | some _, none => throw (.noContext address.context)
  | some compiler, some context => return (compiler, context)

/-- The expression that is kept under a name. -/
def kept (handle : String) : WorkspaceM Expression := do
  match (← get).expressions[handle]? with
  | none => throw (.noExpression handle)
  | some expression => return expression

/-- Keeps a compiler under a name. -/
def setCompiler (name : String) (compiler : Compiler) : WorkspaceM Unit :=
  modify fun workspace ↦ { workspace with compilers := workspace.compilers.insert name compiler }

/-- Keeps a context under a name. -/
def setContext (name : String) (context : Context) : WorkspaceM Unit :=
  modify fun workspace ↦ { workspace with contexts := workspace.contexts.insert name context }

/-- Goes on with another supply of identities. -/
def setSupply (supply : Supply) : WorkspaceM Unit :=
  modify fun workspace ↦ { workspace with supply := supply }

/-- Keeps an expression under a name if one is given, and answers with it. -/
def keep (expression : Expression) : Option String → WorkspaceM Answer
  | none => return .expression expression
  | some handle => do
    modify fun workspace ↦
      { workspace with expressions := workspace.expressions.insert handle expression }
    return .expression expression

/-- The outcome of a compilation, with the compiler and the supply behind it. -/
def compiled {α : Type} (address : Address)
    (outcome : Except CompileError α × Compiler × Supply) : WorkspaceM α := do
  setCompiler address.compiler outcome.2.1
  setSupply outcome.2.2
  MonadExcept.ofExcept (outcome.1.mapError .compile)

/-- The outcome of a registration, with the compiler behind it. -/
def registered (address : Address) (outcome : Except RegistrationError Unit × Compiler) :
    WorkspaceM Answer := do
  setCompiler address.compiler outcome.2
  MonadExcept.ofExcept (outcome.1.mapError .registration)
  return .done

/-! ### The commands -/

/-- Carries out a command. -/
def perform (address : Address) : Command → WorkspaceM Answer
  | .newCompiler grammar capacity => do
    setCompiler address.compiler (.new grammar capacity)
    return .done
  | .newContext => do
    setContext address.context .empty
    return .done
  | .literal value keepAs => do
    let (expression, supply) := (← get).supply.issue (.literal value)
    setSupply supply
    keep expression keepAs
  | .compile text keepAs => do
    let (compiler, _) ← addressed address
    let expression ← compiled address (compiler.compile (← get).supply text)
    keep expression keepAs
  | .build text keepAs => do
    let (compiler, _) ← addressed address
    let (expression, supply) ←
      MonadExcept.ofExcept ((Compiler.build compiler.grammar (← get).supply text).mapError .compile)
    setSupply supply
    keep expression keepAs
  | .registerOperator o => do
    let (compiler, _) ← addressed address
    registered address (compiler.registerOperator o)
  | .registerFunction f => do
    let (compiler, _) ← addressed address
    registered address (compiler.registerFunction f)
  | .removeFunction name => do
    let (compiler, _) ← addressed address
    setCompiler address.compiler (compiler.modifyGrammar (·.removeFunction name))
    return .function (compiler.grammar.function? name)
  | .touchGrammar => do
    let (compiler, _) ← addressed address
    setCompiler address.compiler (compiler.modifyGrammar id)
    return .done
  | .function name => do
    let (compiler, _) ← addressed address
    return .function (compiler.grammar.function? name)
  | .lex text => do
    let (compiler, _) ← addressed address
    return .tokens (Lexer.run compiler.grammar (.ofText text))
  | .tree handle => return .expression (← kept handle)
  | .add name handle => do
    let (_, context) ← addressed address
    let context := context.add name (← kept handle)
    setContext address.context context
    return .size context.size
  | .setValue name value => do
    let (_, context) ← addressed address
    let (context, supply) := context.setValue (← get).supply name value
    setSupply supply
    setContext address.context context
    return .size context.size
  | .compileAndAdd name text => do
    let (compiler, context) ← addressed address
    let context ← compiled address (compiler.compileAndAdd (← get).supply context name text)
    setContext address.context context
    return .size context.size
  | .delete name => do
    let (_, context) ← addressed address
    let expression := context.find? name
    let context := context.delete name
    setContext address.context context
    return .deleted expression context.size
  | .contains name => do
    let (_, context) ← addressed address
    return .contains (context.contains name)
  | .size => do
    let (_, context) ← addressed address
    return .size context.size
  | .get name keepAs => do
    let (_, context) ← addressed address
    let expression ← MonadExcept.ofExcept ((context.get name).mapError .eval)
    keep expression keepAs
  | .copyContext copyAs => do
    let (_, context) ← addressed address
    setContext copyAs context
    return .done
  | .eval handle => do
    let (_, context) ← addressed address
    let evaluation := (← kept handle).eval context
    setContext address.context evaluation.context
    return .evaluation evaluation
  | .evalClosed handle => do
    let _ ← addressed address
    let value ← MonadExcept.ofExcept ((← kept handle).evalClosed.mapError .eval)
    return .value value

end WorkspaceM

namespace Workspace

/-- The workspace to begin with: the compiler `c0` for the standard grammar, the context `x0` that
binds nothing, and no expressions. -/
def initial (draw : Float := default) : Workspace :=
  ⟨(∅ : Std.ExtTreeMap String Compiler).insert "c0" (.standard draw),
    (∅ : Std.ExtTreeMap String Context).insert "x0" .empty, ∅, .full⟩

/-- Carries out a command: the answer or the failure, and the workspace behind it. -/
def step (workspace : Workspace) (address : Address) (command : Command) :
    Except Failure Answer × Workspace :=
  (WorkspaceM.perform address command).run workspace

/-- Carries out commands one after the other. -/
def steps (workspace : Workspace) :
    List (Address × Command) → List (Except Failure Answer) × Workspace
  | [] => ([], workspace)
  | (address, command) :: others =>
    let (answer, workspace) := workspace.step address command
    let (answers, workspace) := workspace.steps others
    (answer :: answers, workspace)

end Workspace

end Formulary
