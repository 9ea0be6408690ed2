import Formulary.CallStack
import Formulary.Error
import Std.Data.ExtTreeMap

/-!
# Contexts

A context binds names to expressions. It also holds the call stack of the evaluation that it takes
part in, which is empty between evaluations.
-/

set_option autoImplicit false
set_option relaxedAutoImplicit false

namespace Formulary

/-- Names bound to expressions, and the names that are being resolved. -/
structure Context where
  bindings : Std.ExtTreeMap String Expression
  callStack : CallStack

namespace Context

/-- The context that binds nothing. -/
def empty : Context := ⟨∅, .empty⟩

/-- The expression bound to a name. -/
def find? (context : Context) (name : String) : Option Expression := context.bindings[name]?

/-- The expression bound to a name; a name without one is an error. -/
def get (context : Context) (name : String) : Except EvalError Expression :=
  match context.find? name with
  | some expression => .ok expression
  | none => .error (.notFound name)

/-- Binds a name, whatever it was bound to before. -/
def add (context : Context) (name : String) (expression : Expression) : Context :=
  { context with bindings := context.bindings.insert name expression }

/-- Binds a name to a number, as an expression of its own. -/
def setValue (context : Context) (supply : Supply) (name : String) (value : Float) :
    Context × Supply :=
  let (expression, supply) := supply.issue (.literal value)
  (context.add name expression, supply)

/-- Unbinds a name. -/
def delete (context : Context) (name : String) : Context :=
  { context with bindings := context.bindings.erase name }

/-- Whether the name is bound. -/
def contains (context : Context) (name : String) : Bool := context.bindings.contains name

/-- How many names are bound. -/
def size (context : Context) : Nat := context.bindings.size

/-- Whether no name is bound. -/
def isEmpty (context : Context) : Bool := context.bindings.isEmpty

/-- The context while a name is being resolved. -/
def enter (context : Context) (frame : Frame) : Context :=
  { context with callStack := context.callStack.push frame }

/-- The context after a name has been resolved. -/
def leave (context : Context) : Context := { context with callStack := context.callStack.pop }

@[simp] theorem leave_enter (context : Context) (frame : Frame) :
    (context.enter frame).leave = context := rfl

/-! ### What an operation changes -/

@[simp] theorem find?_empty (name : String) : empty.find? name = none := by
  simp [find?, empty]

theorem find?_add (context : Context) (bound name : String) (expression : Expression) :
    (context.add bound expression).find? name =
      if bound = name then some expression else context.find? name := by
  simp [find?, add, Std.ExtTreeMap.getElem?_insert]

theorem find?_delete (context : Context) (unbound name : String) :
    (context.delete unbound).find? name = if unbound = name then none else context.find? name := by
  simp [find?, delete, Std.ExtTreeMap.getElem?_erase]

@[simp] theorem find?_enter (context : Context) (frame : Frame) (name : String) :
    (context.enter frame).find? name = context.find? name := rfl

@[simp] theorem find?_leave (context : Context) (name : String) :
    context.leave.find? name = context.find? name := rfl

theorem contains_eq_isSome_find? (context : Context) (name : String) :
    context.contains name = (context.find? name).isSome := by
  simp [contains, find?]

end Context

end Formulary
