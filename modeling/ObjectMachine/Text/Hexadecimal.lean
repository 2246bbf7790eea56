/-
This file writes bytes in hexadecimal, two lower-case digits each, and reads them again.
-/

namespace ObjectMachine

def hexDigit (n : Nat) : Char :=
  Char.ofNat (if n < 10 then '0'.toNat + n else 'a'.toNat + (n - 10))

/-- Reads a digit, a letter in lower case only. -/
def hexDigitValue? (c : Char) : Option Nat :=
  if '0' ≤ c ∧ c ≤ '9' then some (c.toNat - '0'.toNat)
  else if 'a' ≤ c ∧ c ≤ 'f' then some (c.toNat - 'a'.toNat + 10)
  else none

def hexDigits (byte : UInt8) : List Char :=
  [hexDigit (byte.toNat / 16), hexDigit (byte.toNat % 16)]

def hexText (bytes : List UInt8) : String := String.ofList (bytes.flatMap hexDigits)

def readHexDigits? : List Char → Option (List UInt8)
  | [] => some []
  | [_] => none
  | high :: low :: rest => do
    let byte := 16 * (← hexDigitValue? high) + (← hexDigitValue? low)
    return UInt8.ofNat byte :: (← readHexDigits? rest)

/-- There are no bytes for an odd number of digits or for anything else. -/
def readHex? (text : String) : Option (List UInt8) := readHexDigits? text.toList

end ObjectMachine
