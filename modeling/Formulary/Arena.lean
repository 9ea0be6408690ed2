import Formulary.Reducer

/-!
# Arenas

A formula is kept as a table of nodes. A node with operands names them by their indices in the
table, and operands are stored before the node that uses them, so that the values of all nodes can
be computed in the order of the table. One index is the root: its value is the value of the formula.
-/

set_option autoImplicit false
set_option relaxedAutoImplicit false

namespace Formulary

/-- A part of a formula: a number, a name, or an operation on earlier nodes. -/
inductive Node
  | literal (value : Float)
  | reference (name : String)
  | operation (applied : Operation) (children : List Nat)

/-- The name that a node refers to, if it is a reference. -/
def Node.reference? : Node → Option String
  | .reference name => some name
  | _ => none

/-- A formula as a table of nodes with a root. -/
structure Arena where
  nodes : Array Node
  root : Nat

namespace Arena

/-- The formula that is a single number. -/
def literal (value : Float) : Arena := ⟨#[.literal value], 0⟩

/-- The node with the given index. -/
def node? (arena : Arena) (index : Nat) : Option Node := arena.nodes[index]?

/-- The names that the formula refers to, in the order of the table and with repetitions. -/
def references (arena : Arena) : List String := arena.nodes.toList.filterMap Node.reference?

end Arena

end Formulary
