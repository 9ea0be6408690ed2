import Formulary.Arena
import Formulary.Numeral.Value
import Formulary.Token.Lexer

/-!
# Assembling an arena from tokens

Tokens are read once, from left to right. Numbers and references become trees at once; operators,
function names and open parentheses wait until it is known what their operands are (`Pending`). The
trees that are finished but not yet taken as operands form a forest over one table of nodes
(`Forest`), and an operation that is carried out takes the latest trees of the forest as its
operands, in the order in which they were made (`Forest.apply`).

A waiting operator is carried out when an operator follows that does not take its operand away
(`Operator.bindsBefore`). A comma and a closing parenthesis carry out everything down to the open
parenthesis, and a closing parenthesis also carries out the function whose name stands before that
open parenthesis. The end of the text carries out everything. A formula is accepted when exactly one
tree is left; its root is the root of the arena.
-/

set_option autoImplicit false
set_option relaxedAutoImplicit false

namespace Formulary

/-! ### Forests -/

/-- The nodes so far and the roots of the trees that are not yet operands, the latest root first. -/
structure Forest where
  nodes : Array Node
  roots : List Nat

namespace Forest

/-- The forest without trees. -/
def empty : Forest := ⟨#[], []⟩

/-- Adds a tree of one node. -/
def plant (forest : Forest) (node : Node) : Forest :=
  let root := forest.nodes.size
  ⟨forest.nodes.push node, root :: forest.roots⟩

/-- Makes the latest trees the operands of an operation, as many as it takes. -/
def apply (forest : Forest) (operation : Operation) : Except CompileError Forest :=
  let available := forest.roots.length
  if available < operation.arity then
    .error (.missingOperands operation.label operation.arity available)
  else
    let children := (forest.roots.take operation.arity).reverse
    let rest := forest.roots.drop operation.arity
    .ok (plant ⟨forest.nodes, rest⟩ (.operation operation children))

@[simp] theorem nodes_plant (forest : Forest) (node : Node) :
    (forest.plant node).nodes = forest.nodes.push node := rfl

@[simp] theorem roots_plant (forest : Forest) (node : Node) :
    (forest.plant node).roots = forest.nodes.size :: forest.roots := rfl

theorem apply_eq_error_iff (forest : Forest) (operation : Operation) (error : CompileError) :
    forest.apply operation = .error error ↔ forest.roots.length < operation.arity ∧
      error = .missingOperands operation.label operation.arity forest.roots.length := by
  by_cases h : forest.roots.length < operation.arity <;> simp [apply, h, eq_comm]

end Forest

/-! ### Waiting operations -/

/-- What waits for its operands to be complete. -/
inductive Pending
  | operator (o : Operator)
  | function (f : NamedFunction)
  | openParen

namespace Pending

/-- The operation that is waiting, unless it is an open parenthesis. -/
def operation? : Pending → Option Operation
  | .operator o => some o.operation
  | .function f => some f.operation
  | .openParen => none

/-- The operation that is due when the operator `next` follows. -/
def dueBefore (next : Operator) : Pending → Option Operation
  | .operator o => if o.bindsBefore next then some o.operation else none
  | _ => none

end Pending

/-- A formula in the making: its forest and what waits, the latest first. -/
structure Assembly where
  forest : Forest
  pending : List Pending

namespace Assembly

/-- The assembly before the first token. -/
def empty : Assembly := ⟨.empty, []⟩

/-- Adds a tree of one node. -/
def plant (assembly : Assembly) (node : Node) : Assembly :=
  { assembly with forest := assembly.forest.plant node }

/-- Lets something wait. -/
def wait (assembly : Assembly) (pending : Pending) : Assembly :=
  { assembly with pending := pending :: assembly.pending }

/-- Carries out waiting operations, the latest first, as long as they are due. -/
def reduceWhile (due : Pending → Option Operation) (forest : Forest) :
    List Pending → Except CompileError Assembly
  | [] => .ok ⟨forest, []⟩
  | waiting :: others =>
    match due waiting with
    | none => .ok ⟨forest, waiting :: others⟩
    | some operation => do
      let forest ← forest.apply operation
      reduceWhile due forest others

/-- Carries out the waiting operations down to an open parenthesis or to the last. -/
def reduceGroup (assembly : Assembly) : Except CompileError Assembly :=
  reduceWhile Pending.operation? assembly.forest assembly.pending

/-- Takes an operator: carries out what is due before it, and lets it wait. -/
def takeOperator (assembly : Assembly) (o : Operator) : Except CompileError Assembly := do
  let assembly ← reduceWhile (Pending.dueBefore o) assembly.forest assembly.pending
  return assembly.wait (.operator o)

/-- Takes a comma: completes the argument before it. Commas stand between parentheses. -/
def takeComma (assembly : Assembly) (input : String) : Except CompileError Assembly := do
  let assembly ← assembly.reduceGroup
  if assembly.pending.isEmpty then throw (.misplacedComma input)
  return assembly

/-- Carries out the latest waiting operation if it is a function. -/
def applyFunction (assembly : Assembly) : Except CompileError Assembly :=
  match assembly.pending with
  | .function f :: others => do
    let forest ← assembly.forest.apply f.operation
    return ⟨forest, others⟩
  | _ => return assembly

/-- Takes a closing parenthesis: completes what stands behind the open one, and applies the function
before it. -/
def takeCloseParen (assembly : Assembly) (input : String) : Except CompileError Assembly := do
  let assembly ← assembly.reduceGroup
  match assembly.pending with
  | [] => throw (.mismatchedParenthesis input)
  | _ :: others => applyFunction ⟨assembly.forest, others⟩

/-- Takes one token of the formula `input`. -/
def take (g : Grammar) (input : String) (assembly : Assembly) (token : Token) :
    Except CompileError Assembly :=
  match token.kind with
  | .number =>
    match Numeral.value? token.text with
    | none => .error (.invalidNumber token.text)
    | some value => .ok (assembly.plant (.literal value))
  | .identifier =>
    match g.function? token.text with
    | none => .ok (assembly.plant (.reference token.text))
    | some f => .ok (assembly.wait (.function f))
  | .operator =>
    match g.operator? token.text with
    | none => .error (.unknownOperator token.text)
    | some o => assembly.takeOperator o
  | .openParen => .ok (assembly.wait .openParen)
  | .closeParen => assembly.takeCloseParen input
  | .comma => assembly.takeComma input

/-- Completes the formula `input` when its text has ended. -/
def finish (assembly : Assembly) (input : String) : Except CompileError Arena := do
  let assembly ← assembly.reduceGroup
  if !assembly.pending.isEmpty then throw (.mismatchedParenthesis input)
  match assembly.forest.roots with
  | [root] => return ⟨assembly.forest.nodes, root⟩
  | roots => throw (.leftoverOperands roots.length)

end Assembly

/-- Compiles a formula: cuts it into tokens and assembles an arena from them. Of two errors the one
that is met first counts. -/
def Grammar.compile (g : Grammar) (input : String) : Except CompileError Arena := do
  let run := Lexer.run g (.ofText input)
  let assembly ← run.tokens.foldlM (Assembly.take g input) .empty
  if let some error := run.failure then throw (.lex error)
  assembly.finish input

end Formulary
