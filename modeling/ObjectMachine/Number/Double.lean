/-
This file gives the double-precision numbers of the machine as their 64 bits, so that
two doubles are the same value exactly when their bits agree. A finite double is a
sign and a count of the least positive double, 2 ^ -1074: rounding, remainder, order
and floor are integer arithmetic on that count. The four basic operations are the
processor's; a NaN operand is passed on, and an operation that has no result gives
the quiet NaN with its sign set.
-/

namespace ObjectMachine

structure Double where
  bits : UInt64
deriving DecidableEq, Inhabited

namespace Double

/-! ### Reading the bits -/

def isNegative (d : Double) : Bool := d.bits >>> 63 == 1

/-- The bits without the sign. -/
def magnitude (d : Double) : Nat := (d.bits &&& 0x7fffffffffffffff).toNat

def exponentField (d : Double) : Nat := d.magnitude >>> 52

def fraction (d : Double) : Nat := d.magnitude % (1 <<< 52)

def isNaN (d : Double) : Bool := 0x7ff0000000000000 < d.magnitude

def isInfinite (d : Double) : Bool := d.magnitude == 0x7ff0000000000000

def isZero (d : Double) : Bool := d.magnitude == 0

/-- How often a finite double's magnitude holds 2 ^ -1074. -/
def units (d : Double) : Nat :=
  if d.exponentField = 0 then d.fraction
  else ((1 <<< 52) + d.fraction) <<< (d.exponentField - 1)

/-- A key that orders all doubles but the NaNs; both zeros have the key zero. -/
def orderKey (d : Double) : Int :=
  if d.isNegative then -(d.magnitude : Int) else d.magnitude

/-- The bits as bytes, the most significant first. -/
def bytes (d : Double) : List UInt8 :=
  [56, 48, 40, 32, 24, 16, 8, 0].map fun (shift : UInt64) => (d.bits >>> shift).toUInt8

/-! ### Making doubles -/

/-- The double whose bits are these bytes, of which the last eight count. -/
def ofBytes (bytes : List UInt8) : Double :=
  ⟨bytes.foldl (fun word byte => (word <<< 8) ||| byte.toUInt64) 0⟩

def infinityMagnitude : Nat := 0x7ff0000000000000

def ofMagnitude (negative : Bool) (magnitude : Nat) : Double :=
  ⟨UInt64.ofNat (if negative then (1 <<< 63) + magnitude else magnitude)⟩

/--
The double nearest to `count` times 2 ^ -1074, a tie going to the even neighbour.
Below 2 ^ 53 the magnitude is the count itself; above, each exponent field adds one
binade, and a carry out of the fraction moves into the field by itself.
-/
def ofUnits (negative : Bool) (count : Nat) : Double :=
  if count < 1 <<< 53 then ofMagnitude negative count
  else
    let excess := count.log2 - 52
    let kept := count >>> excess
    let dropped := count - (kept <<< excess)
    let half := 1 <<< (excess - 1)
    let rounded :=
      if half < dropped ∨ (dropped = half ∧ kept % 2 = 1) then kept + 1 else kept
    ofMagnitude negative (min ((excess <<< 52) + rounded) infinityMagnitude)

/-- Whether any of the lowest 64-bit words of a number, `words` of them, has a low bit set. -/
def anyLowBit (width : Nat) : (words : Nat) → Nat → Bool
  | 0, _ => false
  | words + 1, n => n % 2 ^ width != 0 || anyLowBit width words (n >>> 64)

/--
A number of more than 64 bits cut after its first 64, the last of them set if a dropped
bit is found. The search looks at each word below the leading one, and there at as many
low bits as the leading word has; a bit that it does not meet counts as zero.
-/
def cutToWord (n : Nat) : Nat :=
  let kept := n >>> (n.log2 - 63)
  if anyLowBit (n.log2 % 64 + 1) (n.log2 / 64) n then kept ||| 1 else kept

/--
The double that stands for an integer: the one nearest to it, or to what its cut leaves,
a tie going to the even neighbour.
-/
def ofInt (n : Int) : Double :=
  let size := n.natAbs
  if size < 1 <<< 64 then ofUnits (n < 0) (size <<< 1074)
  else ofUnits (n < 0) (cutToWord size <<< (size.log2 - 63 + 1074))

/-- What an operation without a result gives. -/
def invalid : Double := ⟨0xfff8000000000000⟩

/-- A NaN with its quiet bit set. -/
def quieted (d : Double) : Double := ⟨d.bits ||| 0x0008000000000000⟩

/-! ### Operations -/

private def operate (operation : Float → Float → Float) (a b : Double) : Double :=
  if a.isNaN then a.quieted
  else if b.isNaN then b.quieted
  else
    let result : Double := ⟨(operation (Float.ofBits a.bits) (Float.ofBits b.bits)).toBits⟩
    if result.isNaN then invalid else result

def add (a b : Double) : Double := operate (· + ·) a b

def sub (a b : Double) : Double := operate (· - ·) a b

def mul (a b : Double) : Double := operate (· * ·) a b

def div (a b : Double) : Double := operate (· / ·) a b

/-- What remains after taking `b` away from `a` a whole number of times; the sign is `a`'s. -/
def rem (a b : Double) : Double :=
  if a.isNaN then a.quieted
  else if b.isNaN then b.quieted
  else if a.isInfinite ∨ b.isZero then invalid
  else if b.isInfinite then a
  else ofUnits a.isNegative (a.units % b.units)

/-- The order of two doubles; there is none with a NaN. -/
def compare? (a b : Double) : Option Ordering :=
  if a.isNaN || b.isNaN then none else some (compare a.orderKey b.orderKey)

/-- The largest integer not above the double, cut to the range of 64 bits; zero for a NaN. -/
def floorInt64 (d : Double) : Int64 :=
  if d.isNaN then 0
  else
    let whole : Int :=
      if d.isInfinite then 0x8000000000000000
      else if d.isNegative then ((d.units + (1 <<< 1074) - 1) >>> 1074 : Nat)
      else (d.units >>> 1074 : Nat)
    let signed := if d.isNegative then -whole else whole
    Int64.ofInt (max (-0x8000000000000000) (min signed 0x7fffffffffffffff))

end Double

end ObjectMachine
