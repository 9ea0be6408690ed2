import Formulary.Arena.Assembly
import Formulary.Compiler.Cache
import Formulary.Context
import Formulary.Grammar.Standard

/-!
# Compilers

A compiler owns a grammar and a cache. Compiling a text that is in the cache gives the expression
that is kept there, with its identity; any other text is compiled anew and kept. A failing
compilation changes nothing and uses up no identity.

A text may mean something else under another grammar. Therefore every access to the grammar for the
sake of a change empties the cache (`Compiler.modifyGrammar`), also when nothing is changed in the
end, as by a registration that fails (`Compiler.tryGrammar`).
-/

set_option autoImplicit false
set_option relaxedAutoImplicit false

namespace Formulary

/-- A grammar with the expressions that were compiled under it last. -/
structure Compiler where
  grammar : Grammar
  cache : Cache

namespace Compiler

/-- The number of expressions that a compiler keeps unless it is told otherwise. -/
def defaultCapacity : Nat := 128

/-- A compiler for a grammar, with a cache of the given capacity. -/
def new (grammar : Grammar) (capacity : Nat) : Compiler := ⟨grammar, .empty capacity⟩

/-- A compiler for the standard grammar. -/
def standard (draw : Float := default) : Compiler := new (.standard draw) defaultCapacity

/-! ### Compiling -/

/-- Compiles a text anew. -/
def build (grammar : Grammar) (supply : Supply) (text : String) :
    Except CompileError (Expression × Supply) := do
  let arena ← grammar.compile text
  return supply.issue arena

/-- Compiles a text, or finds it in the cache. -/
def compile (compiler : Compiler) (supply : Supply) (text : String) :
    Except CompileError Expression × Compiler × Supply :=
  match compiler.cache.find? text with
  | some expression =>
    (.ok expression, { compiler with cache := compiler.cache.put text expression }, supply)
  | none =>
    match build compiler.grammar supply text with
    | .error error => (.error error, compiler, supply)
    | .ok (expression, supply) =>
      (.ok expression, { compiler with cache := compiler.cache.put text expression }, supply)

/-- Compiles a text and binds it to a name. If the text does not compile, the context stays as it
is. -/
def compileAndAdd (compiler : Compiler) (supply : Supply) (context : Context) (name text : String) :
    Except CompileError Context × Compiler × Supply :=
  let (result, compiler, supply) := compiler.compile supply text
  (result.map (context.add name), compiler, supply)

/-! ### Changing the grammar -/

/-- Gives access to the grammar for a change, and drops what was compiled before. -/
def modifyGrammar (compiler : Compiler) (change : Grammar → Grammar) : Compiler :=
  ⟨change compiler.grammar, compiler.cache.clear⟩

/-- Lets the grammar try a change, which leaves it as it is when it fails. -/
def tryGrammar (compiler : Compiler) (change : Grammar → Except RegistrationError Grammar) :
    Except RegistrationError Unit × Compiler :=
  match change compiler.grammar with
  | .error error => (.error error, compiler.modifyGrammar id)
  | .ok grammar => (.ok (), compiler.modifyGrammar fun _ ↦ grammar)

/-- Registers an operator. -/
def registerOperator (compiler : Compiler) (o : Operator) :
    Except RegistrationError Unit × Compiler :=
  compiler.tryGrammar (·.registerOperator o)

/-- Registers a function. -/
def registerFunction (compiler : Compiler) (f : NamedFunction) :
    Except RegistrationError Unit × Compiler :=
  compiler.tryGrammar (·.registerFunction f)

end Compiler

end Formulary
