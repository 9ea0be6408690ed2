import Formulary.Builtin

/-!
# The grammars to start from

Every grammar grows from one of three: the empty grammar has the reserved symbols only, the
arithmetic grammar adds the five operators of arithmetic, and the standard grammar adds the built-in
functions as well.
-/

set_option autoImplicit false
set_option relaxedAutoImplicit false

namespace Formulary.Grammar

/-- The grammar of the reserved symbols: the parentheses and the comma. -/
def empty : Grammar :=
  let bare : Grammar := ⟨∅, [], 0, ∅⟩
  ((bare.insertSymbol "(" .openParen).insertSymbol ")" .closeParen).insertSymbol "," .comma

/-- The operators of arithmetic. Powers bind most tightly and nest to the right; products and
quotients come next, then sums and differences. -/
def arithmeticOperators : List Operator :=
  [⟨"+", 2, .left, (· + ·)⟩,
   ⟨"-", 2, .left, (· - ·)⟩,
   ⟨"*", 3, .left, (· * ·)⟩,
   ⟨"/", 3, .left, (· / ·)⟩,
   ⟨"^", 4, .right, Float.pow⟩]

/-- The grammar of arithmetic, without functions. -/
def arithmetic : Grammar := arithmeticOperators.foldl insertOperator empty

/-- The grammar of arithmetic and the built-in functions, with the draw that `rand` answers. -/
def standard (draw : Float := default) : Grammar :=
  (Builtin.functions draw).foldl insertFunction arithmetic

end Formulary.Grammar
