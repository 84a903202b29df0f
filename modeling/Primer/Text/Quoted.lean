/-
  Primer/Text/Quoted.lean
  =======================
  **Text between double quotes.**

  A double quote and a backslash are written behind a backslash; newline, tab, carriage
  return and the null character have short forms; any other character that cannot be
  printed on its own is written as `\u` and its code in braces, in lower-case hexadecimal
  digits.  All else stands for itself.
-/
import Primer.Text.Unprintable

namespace Primer.Quoted

/-- The hexadecimal digits of a number, in lower case and without leading zeros. -/
def hex (n : Nat) : String := String.ofList (Nat.toDigits 16 n)

/-- One character of a quoted text. -/
def escape (c : Char) : String :=
  if c = '"' then "\\\""
  else if c = '\\' then "\\\\"
  else if c = '\n' then "\\n"
  else if c = '\t' then "\\t"
  else if c = '\r' then "\\r"
  else if c = '\x00' then "\\0"
  else if isUnprintable c then "\\u\x7b" ++ hex c.toNat ++ "\x7d"
  else c.toString

/-- A text between double quotes. -/
def quote (s : String) : String := "\"" ++ String.join (s.toList.map escape) ++ "\""

end Primer.Quoted
