/-
This file reads a bounded natural number from text: blanks around it are dropped, one
plus sign may lead, and at least one decimal digit must follow. Any number of zeros
may lead.
-/

namespace ObjectMachine

/-- The white space of Unicode. -/
def isBlank (c : Char) : Bool :=
  let n := c.toNat
  (9 ≤ n && n ≤ 13) || n == 0x20 || n == 0x85 || n == 0xa0 || n == 0x1680
    || (0x2000 ≤ n && n ≤ 0x200a) || n == 0x2028 || n == 0x2029 || n == 0x202f
    || n == 0x205f || n == 0x3000

/-- The characters between the blanks at both ends. -/
def trimmed (text : String) : List Char :=
  ((text.toList.dropWhile isBlank).reverse.dropWhile isBlank).reverse

/-- The value of a non-empty row of decimal digits. -/
def digitsValue? : List Char → Option Nat
  | [] => none
  | digits =>
    if digits.all Char.isDigit then
      some (digits.foldl (fun value c => 10 * value + (c.toNat - '0'.toNat)) 0)
    else none

/-- Reads a natural number below `bound`, blanks not allowed. -/
def readNatural? (bound : Nat) (chars : List Char) : Option Nat :=
  let digits :=
    match chars with
    | '+' :: rest => rest
    | other => other
  (digitsValue? digits).filter (· < bound)

def parseNatural? (bound : Nat) (text : String) : Option Nat :=
  readNatural? bound (trimmed text)

end ObjectMachine
