/-
A text in double quotes, with everything that could be misread escaped.

The quote, the backslash and the four controls with a short name are written
with a backslash, other characters that are not printable by their code point,
and the rest, single quotes included, as they are.
-/
import RoutePattern.Text.Printable

set_option autoImplicit false

namespace RoutePattern.Text

/-- The short escapes: the letter written behind the backslash. -/
def shortEscape? : Char → Option Char
  | '"' => some '"'
  | '\\' => some '\\'
  | '\n' => some 'n'
  | '\r' => some 'r'
  | '\t' => some 't'
  | '\x00' => some '0'
  | _ => none

/-- How one character is written between the quotes. A code point has lower-case hexadecimal
digits, as many as it needs, in curly brackets. -/
def quoteChar (c : Char) : List Char :=
  match shortEscape? c with
  | some e => ['\\', e]
  | none =>
    if isPrintable c then [c]
    else ['\\', 'u', '\x7b'] ++ Nat.toDigits 16 c.toNat ++ ['\x7d']

/-- The quoted form of a text. -/
def quoted (s : String) : String :=
  String.ofList ('"' :: s.toList.flatMap quoteChar ++ ['"'])

example : quoted "a\"\\\n" = "\"a\\\"\\\\\\n\"" := by decide +kernel

example : quoted "你'\x7f" = "\"你'\\u\x7b7f\x7d\"" := by decide +kernel

end RoutePattern.Text
