import Formulary.Expression

/-!
# The names that are being resolved

While the value of a name is computed, the name is on the call stack, together with the identity of
the expression that it is bound to. An expression that is already on the stack would be evaluated
inside itself; the names from its first occurrence on are then the cycle (`CallStack.cycle?`).
-/

set_option autoImplicit false
set_option relaxedAutoImplicit false

namespace Formulary

/-- A name that is being resolved and the expression that it is bound to. -/
structure Frame where
  name : String
  expression : ExpressionId
  deriving DecidableEq

/-- The names that are being resolved, the innermost first. -/
structure CallStack where
  frames : List Frame
  deriving DecidableEq

namespace CallStack

/-- The stack on which there is nothing. -/
def empty : CallStack := ⟨[]⟩

/-- How many names are being resolved. -/
def depth (stack : CallStack) : Nat := stack.frames.length

/-- Whether no name is being resolved. -/
def isEmpty (stack : CallStack) : Bool := stack.frames.isEmpty

/-- The names that are being resolved, the outermost first. -/
def names (stack : CallStack) : List String := (stack.frames.map Frame.name).reverse

/-- Begins to resolve a name. -/
def push (stack : CallStack) (frame : Frame) : CallStack := ⟨frame :: stack.frames⟩

/-- Ends resolving the innermost name. -/
def pop (stack : CallStack) : CallStack := ⟨stack.frames.tail⟩

@[simp] theorem pop_push (stack : CallStack) (frame : Frame) : (stack.push frame).pop = stack := rfl

/-- The cycle that resolving the name `name` would close if it is bound to the expression `id`: the
names from the outermost frame of that expression inwards, and then `name`. -/
def cycle? (stack : CallStack) (id : ExpressionId) (name : String) : Option (List String) :=
  match stack.frames.reverse.dropWhile (·.expression ≠ id) with
  | [] => none
  | frames => some (frames.map Frame.name ++ [name])

end CallStack

end Formulary
