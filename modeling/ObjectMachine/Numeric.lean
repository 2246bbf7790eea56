/-
This file computes with numbers. Integers are exact at any size, and a result that fits
64 bits is held in them; division and remainder round towards negative infinity. Two
integers of 64 bits are computed with in 128 bits, all others at whatever size it takes;
either way the division at hand drops the fraction, so a quotient and a remainder are
corrected where rounding down is something else. As soon as one operand is a double, both
are, and the result is a double.
-/

import ObjectMachine.Error

namespace ObjectMachine

inductive ArithmeticOp
  | add
  | sub
  | mul
  | div
  | mod
deriving DecidableEq

namespace ArithmeticOp

def name : ArithmeticOp → String
  | .add => "+"
  | .sub => "-"
  | .mul => "*"
  | .div => "/"
  | .mod => "\\\\"

/-- The result in 128 bits, where a step that leaves them would wrap around. -/
def onWords (op : ArithmeticOp) (a b : BitVec 128) : Except RuntimeError (BitVec 128) :=
  match op with
  | .add => .ok (a + b)
  | .sub => .ok (a - b)
  | .mul => .ok (a * b)
  | .div =>
    if b = 0 then .error .divisionByZero
    else
      let quotient := a.sdiv b
      .ok (if a.srem b ≠ 0 ∧ a.msb ≠ b.msb then quotient - 1 else quotient)
  | .mod =>
    if b = 0 then .error .divisionByZero
    else
      let remainder := a.srem b
      .ok (if remainder ≠ 0 ∧ remainder.msb ≠ b.msb then remainder + b else remainder)

/-- The result at any size. -/
def onInts (op : ArithmeticOp) (a b : Int) : Except RuntimeError Int :=
  match op with
  | .add => .ok (a + b)
  | .sub => .ok (a - b)
  | .mul => .ok (a * b)
  | .div =>
    if b = 0 then .error .divisionByZero
    else
      let quotient := a.tdiv b
      let remainder := a.tmod b
      .ok (if remainder ≠ 0 ∧ ¬(remainder < 0 ↔ b < 0) then quotient - 1 else quotient)
  | .mod =>
    if b = 0 then .error .divisionByZero
    else
      let remainder := a.tmod b
      .ok (if remainder ≠ 0 ∧ ¬(remainder < 0 ↔ b < 0) then remainder + b else remainder)

def onDoubles (op : ArithmeticOp) (a b : Double) : Double :=
  match op with
  | .add => a.add b
  | .sub => a.sub b
  | .mul => a.mul b
  | .div => a.div b
  | .mod => a.rem b

end ArithmeticOp

/-! ### Sums of 64 bits -/

/-- The sum in 64 bits, if it fits them. -/
def checkedAdd? (a b : Int64) : Option Int64 :=
  if a.toBitVec.saddOverflow b.toBitVec then none else some (a + b)

/-- A sum that fits is exact. -/
theorem toInt_of_checkedAdd? {a b sum : Int64} (fits : checkedAdd? a b = some sum) :
    sum.toInt = a.toInt + b.toInt := by
  unfold checkedAdd? at fits
  split at fits
  · cases fits
  · rename_i within
    cases fits
    exact BitVec.toInt_add_of_not_saddOverflow within

/-- One that does not is beyond an end of the range. -/
theorem checkedAdd?_eq_none_iff {a b : Int64} :
    checkedAdd? a b = none ↔ Int64.maxValue.toInt < a.toInt + b.toInt ∨
      a.toInt + b.toInt < Int64.minValue.toInt := by
  have overflows : a.toBitVec.saddOverflow b.toBitVec = true ↔
      Int64.maxValue.toInt < a.toInt + b.toInt ∨ a.toInt + b.toInt < Int64.minValue.toInt := by
    rw [BitVec.saddOverflow, Bool.or_eq_true, decide_eq_true_eq, decide_eq_true_eq]
    rfl
  rw [← overflows, checkedAdd?]
  split
  · exact iff_of_true rfl ‹_›
  · exact iff_of_false nofun ‹_›

namespace Value

def isDouble : Value → Bool
  | .double _ => true
  | _ => false

def toDouble? : Value → Option Double
  | .double value => some value
  | value => value.int?.map Double.ofInt

def isNumber : Value → Bool
  | .integer _ | .bigInteger _ | .double _ => true
  | _ => false

/-- The operation is not defined on the first operand that is no number. -/
def unsupported (operation : String) (lhs rhs : Value) : RuntimeError :=
  .notImplemented operation (if lhs.isNumber then rhs else lhs).kindName

/-- An integer of 64 bits with its sign in 128. -/
def widen (value : Int64) : BitVec 128 := value.toBitVec.signExtend 128

def arithmetic (op : ArithmeticOp) (lhs rhs : Value) : Except RuntimeError Value :=
  match lhs.int64?, rhs.int64? with
  | some a, some b => (op.onWords (widen a) (widen b)).map fun word => ofInt word.toInt
  | _, _ =>
    if lhs.isDouble || rhs.isDouble then
      match lhs.toDouble?, rhs.toDouble? with
      | some a, some b => .ok (.double (op.onDoubles a b))
      | _, _ => .error (unsupported op.name lhs rhs)
    else
      match lhs.int?, rhs.int? with
      | some a, some b => (op.onInts a b).map ofInt
      | _, _ => .error (unsupported op.name lhs rhs)

def order (lhs rhs : Value) : Except RuntimeError Ordering :=
  match lhs.int64?, rhs.int64? with
  | some a, some b => .ok (compare a b)
  | _, _ =>
    if lhs.isDouble || rhs.isDouble then
      match lhs.toDouble?, rhs.toDouble? with
      | some a, some b =>
        match a.compare? b with
        | some ordering => .ok ordering
        | none => .error (.notImplemented "compare" "NaN")
      | _, _ => .error (unsupported "compare" lhs rhs)
    else
      match lhs.int?, rhs.int? with
      | some a, some b => .ok (compare a b)
      | _, _ => .error (unsupported "compare" lhs rhs)

/-- Equality of numbers; nothing else is equal to anything. -/
def equalNumbers (lhs rhs : Value) : Bool :=
  match order lhs rhs with
  | .ok .eq => true
  | _ => false

/-- Adds a small amount on behalf of an instruction, which an error names. -/
def increment (value : Value) (delta : Int64) (operation : String) :
    Except RuntimeError Value :=
  if value.isNumber then arithmetic .add value (.integer delta)
  else .error (.notImplemented operation value.kindName)

end Value

end ObjectMachine
