/-
Texts between quotation marks.

* `quoted`: writes a text between double quotes; quotes, backslashes, the
  common control characters, and whatever cannot be shown are escaped.
-/
import BoundedTemporal.Text.Unprintable

namespace BoundedTemporal.Text

/-- The letter after the backslash, for the characters that have one. -/
def escapeLetter? : Char → Option Char
  | '\x00' => some '0'
  | '\t' => some 't'
  | '\n' => some 'n'
  | '\r' => some 'r'
  | '"' => some '"'
  | '\\' => some '\\'
  | _ => none

/-- A character inside quotation marks. One that cannot be shown is written as
its code point, in hexadecimal digits between braces. -/
def escapeChar (c : Char) : List Char :=
  match escapeLetter? c with
  | some letter => ['\\', letter]
  | none =>
    if isUnprintable c then
      ['\\', 'u', '\x7b'] ++ Nat.toDigits 16 c.toNat ++ ['\x7d']
    else [c]

/-- A text between quotation marks. -/
def quoted (s : String) : String :=
  "\"" ++ String.ofList (s.toList.flatMap escapeChar) ++ "\""

end BoundedTemporal.Text
