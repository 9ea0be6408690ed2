import Formulary.Grammar

/-!
# Built-in functions

The functions that the standard grammar knows. Apart from `pi` and `rand` they are the elementary
functions of floating-point arithmetic. The library draws no random numbers itself: whoever sets up
the standard grammar hands over a draw from the unit interval, zero included and one excluded, and
`rand` answers with it at every call, so two calls agree. Without a draw it is zero. What is shown
about the standard grammar holds for every draw.
-/

set_option autoImplicit false
set_option relaxedAutoImplicit false

namespace Formulary.Builtin

/-- The floating-point number nearest to the ratio of a circle's circumference to its diameter. -/
def pi : Float := 3.141592653589793

/-- The built-in functions, with the draw that `rand` answers. The decimal logarithm has two
names. -/
def functions (draw : Float) : List NamedFunction :=
  [⟨"sin", 1, .unary Float.sin⟩,
   ⟨"cos", 1, .unary Float.cos⟩,
   ⟨"tan", 1, .unary Float.tan⟩,
   ⟨"asin", 1, .unary Float.asin⟩,
   ⟨"acos", 1, .unary Float.acos⟩,
   ⟨"atan", 1, .unary Float.atan⟩,
   ⟨"atan2", 2, .binary Float.atan2⟩,
   ⟨"sqrt", 1, .unary Float.sqrt⟩,
   ⟨"exp", 1, .unary Float.exp⟩,
   ⟨"ln", 1, .unary Float.log⟩,
   ⟨"log10", 1, .unary Float.log10⟩,
   ⟨"log", 1, .unary Float.log10⟩,
   ⟨"ceil", 1, .unary Float.ceil⟩,
   ⟨"floor", 1, .unary Float.floor⟩,
   ⟨"pi", 0, .nullary pi⟩,
   ⟨"rand", 0, .nullary draw⟩]

/-- The built-in function with the given name. -/
def function? (name : String) (draw : Float := default) : Option NamedFunction :=
  (functions draw).find? fun f ↦ f.name == name

end Formulary.Builtin
