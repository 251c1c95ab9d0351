/-
Escaped text: a string between double quotes in which every character can be seen.

Quotes and backslashes are escaped by a backslash, and so are the null character, the tab and the line breaks, by a
letter or a digit. Any other character that has no shape of its own is written by its code point.
-/
import ResourceQuery.Text.Unprintable

namespace ResourceQuery.Text

/-- one character, escaped where it needs to be -/
def escapeChar (c : Char) : List Char :=
  match c with
  | '\x00' => ['\\', '0']
  | '\t' => ['\\', 't']
  | '\r' => ['\\', 'r']
  | '\n' => ['\\', 'n']
  | '\\' => ['\\', '\\']
  | '"' => ['\\', '"']
  | c => if isUnprintable c then ['\\', 'u', '\x7b'] ++ Nat.toDigits 16 c.toNat ++ ['\x7d'] else [c]

/-- a string as escaped text, with its quotes -/
def escaped (s : String) : String := String.ofList ('"' :: s.toList.flatMap escapeChar ++ ['"'])

end ResourceQuery.Text
