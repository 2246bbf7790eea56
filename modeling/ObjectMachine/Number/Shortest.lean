/-
This file writes a double with the fewest decimal digits that read back as the same
double. A decimal reads back when it lies in the interval of numbers that round to the
double, the ends included when the double's last bit is even. On the grid of each
number of digits only the two neighbours of the double can be nearest, so the first
grid on which a neighbour lies in the interval gives the digits.
-/

import ObjectMachine.Number.Double

namespace ObjectMachine

/-- A positive decimal: `coefficient` times ten to `exponent`. -/
structure Decimal where
  coefficient : Nat
  exponent : Int
deriving DecidableEq

namespace Decimal

/--
The numbers that round to a positive double, in quarters of 2 ^ -1074: below a power
of two the lower neighbour is only half as far away.
-/
structure RoundingInterval where
  value : Nat
  low : Nat
  high : Nat
  closed : Bool

def RoundingInterval.of (d : Double) : RoundingInterval :=
  let value := 4 * d.units
  let step := 2 <<< (d.exponentField - 1)
  let stepBelow := if d.fraction = 0 ∧ 1 < d.exponentField then step / 2 else step
  ⟨value, value - stepBelow, value + step, d.fraction % 2 = 0⟩

/-- `count` quarters of 2 ^ -1074, scaled so that ten to `exponent` is a whole number. -/
private def scaledQuarters (exponent : Int) (count : Nat) : Nat :=
  count * Nat.pow 10 (-exponent).toNat

/-- Ten to `exponent` in the same scale. -/
private def gridStep (exponent : Int) : Nat :=
  Nat.pow 10 exponent.toNat <<< 1076

/-- The neighbour of the value on the grid of ten to `exponent` that reads back. -/
def neighbour? (interval : RoundingInterval) (exponent : Int) : Option Nat :=
  let step := gridStep exponent
  let value := scaledQuarters exponent interval.value
  let low := scaledQuarters exponent interval.low
  let high := scaledQuarters exponent interval.high
  let below := value / step
  let readsBack (candidate : Nat) : Bool :=
    let point := candidate * step
    if interval.closed then decide (low ≤ point ∧ point ≤ high)
    else decide (low < point ∧ point < high)
  match readsBack below, readsBack (below + 1) with
  | true, true =>
    -- an exact tie goes up
    if 2 * (value - below * step) < step then some below else some (below + 1)
  | true, false => some below
  | false, true => some (below + 1)
  | false, false => none

/-- The exponent of the leading digit of a positive count of quarters of 2 ^ -1074. -/
def leadingExponent (quarters : Nat) : Int :=
  let binary : Int := (quarters.log2 : Int) - 1076
  let guess := Int.fdiv (binary * 1233) 4096
  let reaches (exponent : Int) : Bool :=
    decide (gridStep exponent ≤ scaledQuarters exponent quarters)
  if reaches (guess + 1) then guess + 1
  else if reaches guess then guess
  else guess - 1

/-- Drops trailing zeros, for as many digits as `room` allows. -/
def normalize : (room : Nat) → Decimal → Decimal
  | 0, decimal => decimal
  | room + 1, decimal =>
    if decimal.coefficient % 10 = 0 then
      normalize room ⟨decimal.coefficient / 10, decimal.exponent + 1⟩
    else decimal

/-- The first of the grids with `digits`, `digits + 1`, … digits that has a reading back. -/
def search (interval : RoundingInterval) (leading : Int) : (room digits : Nat) → Decimal
  | 0, digits =>
    let exponent := leading - digits + 1
    ⟨scaledQuarters exponent interval.value / gridStep exponent, exponent⟩
  | room + 1, digits =>
    let exponent := leading - digits + 1
    match neighbour? interval exponent with
    | some coefficient => normalize 20 ⟨coefficient, exponent⟩
    | none => search interval leading room (digits + 1)

/-- The shortest decimal of a positive finite double; seventeen digits always suffice. -/
def shortest (d : Double) : Decimal :=
  let interval := RoundingInterval.of d
  search interval (leadingExponent interval.value) 17 1

def digits (decimal : Decimal) : List Char := (toString decimal.coefficient).toList

/-- The exponent of the first digit. -/
def pointPosition (decimal : Decimal) : Int :=
  decimal.exponent + decimal.digits.length

end Decimal

/-- How decimals are laid out: where positional notation starts and ends. -/
structure DecimalLayout where
  /-- The least exponent of the first digit written positionally. -/
  least : Int
  /-- The largest exponent of the first digit written positionally. -/
  largest : Int

namespace DecimalLayout

/-- With a point, and at least one digit on each side of it. -/
private def positional (decimal : Decimal) : String :=
  let digits := decimal.digits
  let point := decimal.pointPosition
  if point ≤ 0 then
    "0." ++ String.ofList (List.replicate (-point).toNat '0' ++ digits)
  else
    let whole := digits.take point.toNat ++ List.replicate (point.toNat - digits.length) '0'
    let rest := digits.drop point.toNat
    String.ofList whole ++ "." ++ String.ofList (if rest.isEmpty then ['0'] else rest)

/-- One digit, the others after a point if there are any, and the power of ten. -/
private def scientific (decimal : Decimal) : String :=
  let digits := decimal.digits
  let rest := digits.drop 1
  String.ofList (digits.take 1)
    ++ (if rest.isEmpty then "" else "." ++ String.ofList rest)
    ++ "e" ++ toString (decimal.pointPosition - 1)

def write (layout : DecimalLayout) (d : Double) : String :=
  let sign := if d.isNegative then "-" else ""
  if d.isNaN then "NaN"
  else if d.isInfinite then sign ++ "inf"
  else if d.isZero then sign ++ "0.0"
  else
    let decimal := Decimal.shortest d
    let leading := decimal.pointPosition - 1
    sign ++
      if layout.least ≤ leading ∧ leading ≤ layout.largest then positional decimal
      else scientific decimal

end DecimalLayout

/-- Doubles are positional from 0.0001 up to, but not including, ten to sixteen. -/
def Double.layout : DecimalLayout := ⟨-4, 15⟩

def Double.text (d : Double) : String := Double.layout.write d

end ObjectMachine
