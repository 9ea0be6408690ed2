import Formulary.Arena
import Formulary.Error

/-!
# The value of an arena

The nodes are visited once, in the order of the table up to the root, and the value of each is put
behind the values of the nodes before it, where later nodes find the values of their operands. What
a name means is not known here: the visit is made in any monad `m` that has errors of evaluation,
and the meaning of names is an action of `m`. The first error ends the visit.

A node whose operands are not all among the earlier nodes, or are not as many as its operation
takes, has no value (`EvalError.badTree`).
-/

set_option autoImplicit false
set_option relaxedAutoImplicit false

namespace Formulary

variable {m : Type → Type} [Monad m] [MonadExceptOf EvalError m]

/-- The values of the operands of an operation, if all of them are there and as many as needed. -/
def Operation.operands? (operation : Operation) (values : Array Float) (children : List Nat) :
    Option (List Float) :=
  if children.length = operation.arity then children.mapM fun child ↦ values[child]? else none

/-- The value of a node, given the values of the nodes before it. -/
def Node.value (resolve : String → m Float) (values : Array Float) : Node → m Float
  | .literal value => pure value
  | .reference name => resolve name
  | .operation applied children =>
    match applied.operands? values children with
    | some operands => pure (applied.reducer operands)
    | none => throw (.badTree applied.arity children.length)

namespace Arena

/-- The values of the given nodes behind the values of the nodes before them. -/
def valuesFrom (resolve : String → m Float) (values : Array Float) (nodes : List Node) :
    m (Array Float) :=
  nodes.foldlM (fun values node ↦ do return values.push (← node.value resolve values)) values

/-- The value of the root. -/
def evaluate (resolve : String → m Float) (arena : Arena) : m Float := do
  let values ← valuesFrom resolve #[] (arena.nodes.toList.take (arena.root + 1))
  match values.back? with
  | some value => pure value
  | none => throw (.badTree 1 0)

end Arena

end Formulary
