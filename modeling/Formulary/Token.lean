/-!
# Tokens

A formula is cut into tokens. A token keeps the piece of text that it was cut from, so the text of a
formula without its whitespace is the concatenation of the texts of its tokens.
-/

set_option autoImplicit false
set_option relaxedAutoImplicit false

namespace Formulary

/-- What a token is, as far as the assembly of a formula distinguishes tokens. -/
inductive TokenKind
  | number
  | identifier
  | operator
  | openParen
  | closeParen
  | comma
  deriving DecidableEq

/-- A piece of a formula together with its kind. -/
structure Token where
  kind : TokenKind
  text : String
  deriving DecidableEq

end Formulary
