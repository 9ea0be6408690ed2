import Formulary.Text.Quoted

/-!
# What can go wrong

Errors are causes. Each stage has its own type of them: cutting a text into tokens (`LexError`),
assembling an arena (`CompileError`), evaluating (`EvalError`) and extending a grammar
(`RegistrationError`). Their wording is given once, by the functions `message`. Pieces of input that
may hold anything are shown quoted; names of references and whole formulas are shown as they are.
-/

set_option autoImplicit false
set_option relaxedAutoImplicit false

namespace Formulary

open Text (quoted)

/-- A text that cannot be cut into tokens. -/
inductive LexError
  /-- A numeral runs into a letter or digit; the text ends with that character. -/
  | badNumberSyntax (text : String)
  /-- A character that can start no token. -/
  | unexpectedCharacter (c : Char)
  /-- Characters of symbols that begin no registered symbol. -/
  | invalidToken (text : String)
  deriving DecidableEq

/-- Tokens from which no arena can be assembled. -/
inductive CompileError
  /-- The text cannot be cut into tokens. -/
  | lex (error : LexError)
  /-- A number token with no value: a hexadecimal, binary or imaginary one, or a bare exponent. -/
  | invalidNumber (literal : String)
  /-- An operator token without an operator in the grammar. -/
  | unknownOperator (symbol : String)
  /-- A parenthesis of the formula has no partner. -/
  | mismatchedParenthesis (input : String)
  /-- A comma of the formula stands outside of all parentheses. -/
  | misplacedComma (input : String)
  /-- An operation asks for more operands than there are. -/
  | missingOperands (label : String) (needed available : Nat)
  /-- The formula ends with none or several operands instead of one. -/
  | leftoverOperands (count : Nat)
  deriving DecidableEq

/-- An expression without a value. -/
inductive EvalError
  /-- A reference was met, and there is no context. -/
  | noContext (name : String)
  /-- The context binds nothing to the name. -/
  | notFound (name : String)
  /-- An expression is used inside itself, along a chain of names. -/
  | cyclicDependency (chain : List String)
  /-- A node has another number of operands than its operation takes. -/
  | badTree (expected got : Nat)
  deriving DecidableEq

/-- A name or symbol that a grammar does not take. -/
inductive RegistrationError
  /-- The symbol is empty, reserved, or holds a letter, a digit, an underscore or whitespace. -/
  | invalidOperatorSymbol (symbol : String)
  /-- The name is not an identifier. -/
  | invalidFunctionName (name : String)
  deriving DecidableEq

/-! ### Wording -/

/-- The wording of an error of cutting. -/
def LexError.message : LexError → String
  | .badNumberSyntax text => "Bad number syntax " ++ quoted text
  | .unexpectedCharacter c => "Got unexpected character '" ++ c.toString ++ "'"
  | .invalidToken text => "Invalid token " ++ quoted text ++ " found"

/-- The wording of an error of assembling. -/
def CompileError.message : CompileError → String
  | .lex error => error.message
  | .invalidNumber literal =>
    "Lexer gave us value " ++ literal
      ++ ", which cannot be converted to a float: invalid float literal"
  | .unknownOperator symbol => "Operator '" ++ symbol ++ "' is not yet implemented"
  | .mismatchedParenthesis input => "Mismatched parenthesis in " ++ input
  | .misplacedComma input => "Misplaced comma or mismatched parenthesis in " ++ input
  | .missingOperands label needed available =>
    "Evaluation stack error for '" ++ label ++ "', need " ++ toString needed
      ++ " element, but only " ++ toString available ++ " provided"
  | .leftoverOperands count =>
    "Evaluation stack error, still got " ++ toString count
      ++ " elements instead of 1 at the final state"

/-- The wording of an error of evaluation. -/
def EvalError.message : EvalError → String
  | .noContext name => "'" ++ name ++ "' referenced, but no context provided"
  | .notFound name => "Could not find '" ++ name ++ "' in context"
  | .cyclicDependency chain => "Got cyclic dependency " ++ " -> ".intercalate chain
  | .badTree expected got =>
    "Bad tree, expression expected " ++ toString expected ++ " children, got " ++ toString got

/-- The wording of an error of registration. -/
def RegistrationError.message : RegistrationError → String
  | .invalidOperatorSymbol symbol => "Invalid operator syntax " ++ quoted symbol
  | .invalidFunctionName name => "Invalid function name " ++ quoted name

end Formulary
