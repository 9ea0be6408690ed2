/-!
# Reducers and operations

A reducer combines the values of the operands of a node into the value of the node. It takes a list,
since a user may register functions of any number of arguments; reducers of a fixed number of
arguments are made by `Reducer.nullary`, `Reducer.unary` and `Reducer.binary` and answer NaN to a
list of any other length. An operation is a reducer together with the number of operands that it
takes and the label under which it is shown.
-/

set_option autoImplicit false
set_option relaxedAutoImplicit false

namespace Formulary

/-- Combines operand values into one value. -/
abbrev Reducer := List Float → Float

namespace Reducer

/-- The value of a reducer that was given a wrong number of operands. -/
def notANumber : Float := 0.0 / 0.0

/-- A reducer without operands. -/
def nullary (value : Float) : Reducer
  | [] => value
  | _ => notANumber

/-- A reducer with one operand. -/
def unary (f : Float → Float) : Reducer
  | [x] => f x
  | _ => notANumber

/-- A reducer with two operands. -/
def binary (f : Float → Float → Float) : Reducer
  | [x, y] => f x y
  | _ => notANumber

end Reducer

/-- What a node with operands does: how it is shown, how many operands it takes, and how it combines
them. -/
structure Operation where
  label : String
  arity : Nat
  reducer : Reducer

end Formulary
