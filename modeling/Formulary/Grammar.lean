import Formulary.Error
import Formulary.Reducer
import Formulary.Text.Alphanumeric
import Formulary.Text.Whitespace
import Formulary.Token
import Std.Data.ExtTreeMap

/-!
# Grammars

A grammar says which symbols and which function names a formula may use. Parentheses and the comma
are symbols of every grammar; operators and functions are registered by the user, and registering a
symbol or a name again replaces what it meant before. Two facts about the table of symbols are kept
beside it because the lexer asks for them at every character: which characters occur in symbols, and
how many bytes the longest symbol has.

An operator symbol is punctuation: it is not empty, holds no letter, digit, underscore or
whitespace, and is not one of the three reserved symbols. A function name is an identifier. So a
symbol never runs together with a name or a number, and no registration changes what the parentheses
and the comma mean where they stand alone. They may still be parts of longer symbols.
-/

set_option autoImplicit false
set_option relaxedAutoImplicit false

namespace Formulary

/-! ### Operators and functions -/

/-- On which side a chain of operators of equal precedence nests. -/
inductive Associativity
  | left
  | right
  deriving DecidableEq

/-- An operator between two operands. Operators of higher precedence bind more tightly. -/
structure Operator where
  symbol : String
  precedence : Int
  associativity : Associativity
  combine : Float → Float → Float

namespace Operator

/-- Operators take the operand before them and the operand after them. -/
def operation (o : Operator) : Operation := ⟨o.symbol, 2, Reducer.binary o.combine⟩

/-- Whether an earlier operator takes the operand between it and the operator `next`: it binds more
tightly, or equally tightly and `next` associates to the left. -/
def bindsBefore (o next : Operator) : Bool :=
  next.precedence < o.precedence
    || (o.precedence == next.precedence && next.associativity == .left)

end Operator

/-- A function with a name and a fixed number of arguments. -/
structure NamedFunction where
  name : String
  arity : Nat
  reducer : Reducer

/-- A function is shown with a pair of parentheses after its name. -/
def NamedFunction.operation (f : NamedFunction) : Operation := ⟨f.name ++ "()", f.arity, f.reducer⟩

/-! ### The tables -/

/-- The meaning of a symbol. -/
inductive Symbol
  | operator (o : Operator)
  | openParen
  | closeParen
  | comma

namespace Symbol

/-- The kind of the tokens that the symbol is cut into. -/
def kind : Symbol → TokenKind
  | .operator _ => .operator
  | .openParen => .openParen
  | .closeParen => .closeParen
  | .comma => .comma

/-- The operator that the symbol means, if it means one. -/
def operator? : Symbol → Option Operator
  | .operator o => some o
  | _ => none

end Symbol

/-- The symbols and functions that formulas may use. -/
structure Grammar where
  /-- What each symbol means. -/
  symbols : Std.ExtTreeMap String Symbol
  /-- The characters that occur in symbols. -/
  symbolChars : List Char
  /-- The length in bytes of the longest symbol. -/
  maxSymbolLength : Nat
  /-- What each function name means. -/
  functions : Std.ExtTreeMap String NamedFunction

namespace Grammar

/-! ### Looking up -/

/-- The meaning of a complete symbol. -/
def symbol? (g : Grammar) (text : String) : Option Symbol := g.symbols[text]?

/-- The kind of token that a complete symbol is. -/
def symbolKind? (g : Grammar) (text : String) : Option TokenKind := (g.symbol? text).map Symbol.kind

/-- The operator with the given symbol. -/
def operator? (g : Grammar) (symbol : String) : Option Operator :=
  (g.symbol? symbol).bind Symbol.operator?

/-- The function with the given name. -/
def function? (g : Grammar) (name : String) : Option NamedFunction := g.functions[name]?

/-- Whether the character occurs in a symbol. -/
def isSymbolChar (g : Grammar) (c : Char) : Bool := g.symbolChars.contains c

/-! ### Extending a grammar -/

/-- Gives a symbol a meaning, whatever it meant before. -/
def insertSymbol (g : Grammar) (text : String) (symbol : Symbol) : Grammar :=
  { g with
    symbols := g.symbols.insert text symbol
    symbolChars := g.symbolChars ++ text.toList.filter fun c ↦ !g.symbolChars.contains c
    maxSymbolLength := max g.maxSymbolLength text.utf8ByteSize }

/-- Gives the symbol of an operator its meaning. -/
def insertOperator (g : Grammar) (o : Operator) : Grammar := g.insertSymbol o.symbol (.operator o)

/-- Gives the name of a function its meaning. -/
def insertFunction (g : Grammar) (f : NamedFunction) : Grammar :=
  { g with functions := g.functions.insert f.name f }

/-- Takes the function with the given name out of the grammar. -/
def removeFunction (g : Grammar) (name : String) : Grammar :=
  { g with functions := g.functions.erase name }

/-! ### What an extension changes -/

theorem symbol?_insertSymbol (g : Grammar) (text other : String) (symbol : Symbol) :
    (g.insertSymbol text symbol).symbol? other =
      if text = other then some symbol else g.symbol? other := by
  simp [symbol?, insertSymbol, Std.ExtTreeMap.getElem?_insert]

theorem isSymbolChar_insertSymbol (g : Grammar) (text : String) (symbol : Symbol) (c : Char) :
    (g.insertSymbol text symbol).isSymbolChar c = true ↔
      g.isSymbolChar c = true ∨ c ∈ text.toList := by
  by_cases hknown : g.symbolChars.contains c = true <;>
    simp_all [isSymbolChar, insertSymbol]

@[simp] theorem maxSymbolLength_insertSymbol (g : Grammar) (text : String) (symbol : Symbol) :
    (g.insertSymbol text symbol).maxSymbolLength = max g.maxSymbolLength text.utf8ByteSize := rfl

@[simp] theorem function?_insertSymbol (g : Grammar) (text name : String) (symbol : Symbol) :
    (g.insertSymbol text symbol).function? name = g.function? name := rfl

theorem function?_insertFunction (g : Grammar) (f : NamedFunction) (name : String) :
    (g.insertFunction f).function? name = if f.name = name then some f else g.function? name := by
  simp [function?, insertFunction, Std.ExtTreeMap.getElem?_insert]

@[simp] theorem symbol?_insertFunction (g : Grammar) (f : NamedFunction) (text : String) :
    (g.insertFunction f).symbol? text = g.symbol? text := rfl

theorem function?_removeFunction (g : Grammar) (removed name : String) :
    (g.removeFunction removed).function? name =
      if removed = name then none else g.function? name := by
  simp [function?, removeFunction, Std.ExtTreeMap.getElem?_erase]

@[simp] theorem symbol?_removeFunction (g : Grammar) (removed text : String) :
    (g.removeFunction removed).symbol? text = g.symbol? text := rfl

/-! ### Registering -/

/-- Whether the character may occur in an operator symbol. -/
def isOperatorChar (c : Char) : Bool :=
  !(Text.isAlphanumeric c || c == '_' || Text.isWhitespace c)

/-- Whether the text is written like an operator symbol. -/
def isOperatorText (text : String) : Bool := !text.isEmpty && text.toList.all isOperatorChar

/-- Whether the text is a symbol with a meaning of its own, which no operator may take. -/
def isReserved (g : Grammar) (text : String) : Bool :=
  match g.symbol? text with
  | some (.operator _) | none => false
  | some _ => true

/-- Whether the character may start an identifier. -/
def isNameStart (c : Char) : Bool := c.isAlpha || c == '_'

/-- Whether the character may continue an identifier. -/
def isNameChar (c : Char) : Bool := c.isAlphanum || c == '_'

theorem isNameChar_of_isNameStart {c : Char} (h : isNameStart c = true) : isNameChar c = true := by
  simp only [isNameStart, isNameChar, Char.isAlphanum, Bool.or_eq_true] at *
  exact h.imp Or.inl id

/-- Whether the text is an identifier: an ASCII letter or underscore, then ASCII letters, digits and
underscores. -/
def isIdentifier (text : String) : Bool :=
  match text.toList with
  | [] => false
  | c :: cs => isNameStart c && cs.all isNameChar

/-- Registers an operator, or replaces the one with the same symbol. -/
def registerOperator (g : Grammar) (o : Operator) : Except RegistrationError Grammar :=
  if isOperatorText o.symbol && !g.isReserved o.symbol then
    .ok (g.insertOperator o)
  else
    .error (.invalidOperatorSymbol o.symbol)

/-- Registers a function, or replaces the one with the same name. -/
def registerFunction (g : Grammar) (f : NamedFunction) : Except RegistrationError Grammar :=
  if isIdentifier f.name then
    .ok (g.insertFunction f)
  else
    .error (.invalidFunctionName f.name)

end Grammar

end Formulary
