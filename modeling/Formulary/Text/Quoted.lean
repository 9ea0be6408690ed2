import Formulary.Text.Unprintable

/-!
# Quoted text

Error messages show a piece of input between double quotes. Inside, the quote, the backslash and
four control characters are written with a backslash, and every other character that does not show
by itself is written as its code point in lowercase hexadecimal digits between braces. All other
characters stand for themselves, the single quote included.
-/

set_option autoImplicit false
set_option relaxedAutoImplicit false

namespace Formulary.Text

/-- The written form of one character inside quotes. -/
def quotedChar (c : Char) : List Char :=
  match c with
  | '\x00' => ['\\', '0']
  | '\t' => ['\\', 't']
  | '\n' => ['\\', 'n']
  | '\r' => ['\\', 'r']
  | '"' => ['\\', '"']
  | '\\' => ['\\', '\\']
  | c =>
    if isUnprintable c then
      ['\\', 'u', '\x7b'] ++ Nat.toDigits 16 c.toNat ++ ['\x7d']
    else [c]

/-- The text between double quotes, with every character in its written form. -/
def quoted (text : String) : String :=
  String.ofList ('"' :: text.toList.flatMap quotedChar ++ ['"'])

example : quoted "a'b" = "\"a'b\"" := by decide +kernel

example : quoted "\t\"\\\x00" = "\"\\t\\\"\\\\\\0\"" := by decide +kernel

example : quoted "\u200bé\x7f" = "\"\\u\x7b200b\x7dé\\u\x7b7f\x7d\"" := by decide +kernel

end Formulary.Text
