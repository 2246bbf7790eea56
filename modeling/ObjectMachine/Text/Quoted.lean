/-
This file writes text between double quotes. A backslash, a double quote and the four
named controls are written as a backslash and a sign, every other character that does
not print by its code point in hexadecimal.
-/

import ObjectMachine.Text.Printable

namespace ObjectMachine

/-- How one character stands inside quotes. -/
def quotedChar (c : Char) : String :=
  if c = '\t' then "\\t"
  else if c = '\n' then "\\n"
  else if c = '\r' then "\\r"
  else if c = '\x00' then "\\0"
  else if c = '\\' then "\\\\"
  else if c = '"' then "\\\""
  else if isPrintable c then c.toString
  else "\\u\x7b" ++ String.ofList (Nat.toDigits 16 c.toNat) ++ "\x7d"

def quoted (text : String) : String :=
  "\"" ++ text.foldl (fun written c => written ++ quotedChar c) "" ++ "\""

end ObjectMachine
