/-
This file shows that arithmetic on integers is exact. There are two ways of computing, each
with its own correction from a division that drops the fraction to one that rounds down: the
one for 128 bits looks at the sign of the dividend, the other at that of the remainder, which
is the same as long as there is a remainder to look at. In 128 bits there is room for every
step, the correction included, because the operands have come from 64.
-/

import Mathlib.Data.Rat.Floor
import ObjectMachine.Numeric

namespace ObjectMachine

/-! ### What an operation is to give -/

namespace ArithmeticOp

/-- The integer that an operation is to give; a quotient is rounded down. -/
def exact (op : ArithmeticOp) (x y : Int) : Int :=
  match op with
  | .add => x + y
  | .sub => x - y
  | .mul => x * y
  | .div => ⌊(x / y : ℚ)⌋
  | .mod => x - y * ⌊(x / y : ℚ)⌋

/-- Whether an operation divides by zero. -/
def DividesByZero (op : ArithmeticOp) (y : Int) : Prop := (op = .div ∨ op = .mod) ∧ y = 0

instance (op : ArithmeticOp) (y : Int) : Decidable (op.DividesByZero y) :=
  inferInstanceAs (Decidable (_ ∧ _))

end ArithmeticOp

/-! ### Rounding down -/

theorem floor_div_eq_fdiv (x y : Int) : ⌊(x / y : ℚ)⌋ = x.fdiv y := by
  obtain ⟨size, rfl | rfl⟩ := y.eq_nat_or_neg
  · rw [Int.fdiv_eq_ediv_of_nonneg x (Int.natCast_nonneg size), Int.cast_natCast]
    exact Rat.floor_intCast_div_natCast x size
  · rw [← Int.neg_fdiv_neg, Int.neg_neg, Int.fdiv_eq_ediv_of_nonneg _ (Int.natCast_nonneg size),
      ← Rat.floor_intCast_div_natCast]
    congr 1
    push_cast
    rw [neg_div, div_neg]

/-- A quotient that drops the fraction is too large by one where the signs differ. -/
theorem fdiv_fmod_of_truncated {x y : Int} (nonzero : y ≠ 0) :
    x.fdiv y = (if x.tmod y ≠ 0 ∧ ¬(x.tmod y < 0 ↔ y < 0) then x.tdiv y - 1 else x.tdiv y) ∧
      x.fmod y =
        if x.tmod y ≠ 0 ∧ ¬(x.tmod y < 0 ↔ y < 0) then x.tmod y + y else x.tmod y := by
  have whole : x.tmod y + y * x.tdiv y = x := Int.tmod_add_mul_tdiv x y
  have small : (x.tmod y).natAbs < y.natAbs := by
    rw [Int.natAbs_tmod]
    exact Nat.mod_lt _ (Int.natAbs_pos.mpr nonzero)
  have lower : y * (x.tdiv y - 1) = y * x.tdiv y - y := by rw [Int.mul_sub, Int.mul_one]
  rcases Int.lt_or_gt_of_ne nonzero with negative | positive
  · rw [Int.fdiv_fmod_unique' negative]
    split
    · rw [lower]
      omega
    · omega
  · rw [Int.fdiv_fmod_unique positive]
    split
    · rw [lower]
      omega
    · omega

/-- The remainder has the sign of the dividend. -/
theorem tmod_neg_iff {x y : Int} (remains : x.tmod y ≠ 0) : x.tmod y < 0 ↔ x < 0 := by
  rcases Int.lt_or_le x 0 with negative | nonnegative
  · have dual : 0 ≤ (-x).tmod y := Int.tmod_nonneg y (by omega)
    rw [Int.neg_tmod] at dual
    omega
  · have sign : 0 ≤ x.tmod y := Int.tmod_nonneg y nonnegative
    omega

/-- Computing at any size gives what it is to give. -/
theorem ArithmeticOp.onInts_eq (op : ArithmeticOp) (x y : Int) :
    op.onInts x y =
      if op.DividesByZero y then .error .divisionByZero else .ok (op.exact x y) := by
  cases op with
  | add | sub | mul => simp [onInts, exact, DividesByZero]
  | div =>
    by_cases zero : y = 0
    · simp [onInts, DividesByZero, zero]
    · simp only [onInts, DividesByZero, exact, zero, floor_div_eq_fdiv,
        (fdiv_fmod_of_truncated zero).1, and_false, if_false]
  | mod =>
    by_cases zero : y = 0
    · simp [onInts, DividesByZero, zero]
    · simp only [onInts, DividesByZero, exact, zero, floor_div_eq_fdiv, ← Int.fmod_def,
        (fdiv_fmod_of_truncated zero).2, and_false, if_false]

/-! ### 128 bits -/

/-- The result of a step in 128 bits, unless it would leave them. -/
def within (overflows : Bool) (result : BitVec 128) : Option (BitVec 128) :=
  if overflows then none else some result

/-- Computing in 128 bits with every step checked; there is no result if one leaves them. -/
def ArithmeticOp.checked (op : ArithmeticOp) (a b : BitVec 128) :
    Except RuntimeError (Option (BitVec 128)) :=
  match op with
  | .add => .ok (within (a.saddOverflow b) (a + b))
  | .sub => .ok (within (a.ssubOverflow b) (a - b))
  | .mul => .ok (within (a.smulOverflow b) (a * b))
  | .div =>
    if b = 0 then .error .divisionByZero
    else .ok do
      let quotient ← within (a.sdivOverflow b) (a.sdiv b)
      let remainder ← within (a.sdivOverflow b) (a.srem b)
      if remainder ≠ 0 ∧ a.msb ≠ b.msb then within (quotient.ssubOverflow 1) (quotient - 1)
      else quotient
  | .mod =>
    if b = 0 then .error .divisionByZero
    else .ok do
      let remainder ← within (a.sdivOverflow b) (a.srem b)
      if remainder ≠ 0 ∧ remainder.msb ≠ b.msb then
        within (remainder.saddOverflow b) (remainder + b)
      else remainder

/-- An integer of 128 bits that would fit 64. -/
structure Narrow (word : BitVec 128) : Prop where
  least : -2 ^ 63 ≤ word.toInt
  largest : word.toInt < 2 ^ 63

theorem toInt_widen (value : Int64) : (Value.widen value).toInt = value.toInt :=
  BitVec.toInt_signExtend_of_le (by decide)

theorem narrow_widen (value : Int64) : Narrow (Value.widen value) where
  least := toInt_widen value ▸ value.le_toInt
  largest := toInt_widen value ▸ value.toInt_lt

theorem within_eq_some {overflows : Bool} (stays : overflows = false) (result : BitVec 128) :
    within overflows result = some result := by
  rw [within, stays]
  rfl

namespace Narrow

variable {a b : BitVec 128}

theorem saddOverflow (narrow : Narrow a) (other : Narrow b) : a.saddOverflow b = false := by
  have := narrow.least; have := narrow.largest; have := other.least; have := other.largest
  simp only [BitVec.saddOverflow, Bool.or_eq_false_iff, decide_eq_false_iff_not]
  omega

theorem ssubOverflow (narrow : Narrow a) (other : Narrow b) : a.ssubOverflow b = false := by
  have := narrow.least; have := narrow.largest; have := other.least; have := other.largest
  simp only [BitVec.ssubOverflow, Bool.or_eq_false_iff, decide_eq_false_iff_not]
  omega

/-- A product is at most 2^126 in size. -/
theorem smulOverflow (narrow : Narrow a) (other : Narrow b) : a.smulOverflow b = false := by
  have first : |a.toInt| ≤ 2 ^ 63 := abs_le.mpr ⟨narrow.least, narrow.largest.le⟩
  have second : |b.toInt| ≤ 2 ^ 63 := abs_le.mpr ⟨other.least, other.largest.le⟩
  have product : |a.toInt * b.toInt| ≤ 2 ^ 63 * 2 ^ 63 := by
    rw [abs_mul]
    exact mul_le_mul first second (abs_nonneg _) (by decide)
  have bounds := abs_le.mp product
  simp only [BitVec.smulOverflow, Bool.or_eq_false_iff, decide_eq_false_iff_not]
  omega

/-- Only the least integer of 128 bits has a quotient outside of them. -/
theorem sdivOverflow (narrow : Narrow a) : a.sdivOverflow b = false := by
  have size : (a.toInt / b.toInt).natAbs ≤ a.toInt.natAbs := Int.natAbs_ediv_le_natAbs _ _
  have := narrow.least; have := narrow.largest
  simp only [BitVec.sdivOverflow, Bool.or_eq_false_iff, decide_eq_false_iff_not]
  omega

theorem toInt_sdiv (narrow : Narrow a) : (a.sdiv b).toInt = a.toInt.tdiv b.toInt := by
  refine BitVec.toInt_sdiv_of_ne_or_ne a b (.inl fun least => ?_)
  have := narrow.least
  rw [least] at this
  exact absurd this (by decide)

/-- A quotient may be as large as 2^63, but no larger. -/
theorem pred_sdiv (narrow : Narrow a) : (a.sdiv b).ssubOverflow 1 = false := by
  have size : (a.toInt.tdiv b.toInt).natAbs ≤ a.toInt.natAbs := Int.natAbs_tdiv_le_natAbs _ _
  have := narrow.least; have := narrow.largest
  have one : (1 : BitVec 128).toInt = 1 := by decide
  simp only [BitVec.ssubOverflow, narrow.toInt_sdiv, one, Bool.or_eq_false_iff,
    decide_eq_false_iff_not]
  omega

theorem srem (narrow : Narrow a) : Narrow (a.srem b) := by
  have size : (a.toInt.tmod b.toInt).natAbs ≤ a.toInt.natAbs := by
    rw [Int.natAbs_tmod]
    exact Nat.mod_le _ _
  have := narrow.least; have := narrow.largest
  by_cases remains : a.toInt.tmod b.toInt = 0
  · constructor <;> rw [BitVec.toInt_srem, remains] <;> decide
  · have sign := tmod_neg_iff remains
    constructor <;> rw [BitVec.toInt_srem] <;> omega

end Narrow

/-- No step on integers that have come from 64 bits leaves 128. -/
theorem ArithmeticOp.checked_eq {a b : BitVec 128} (op : ArithmeticOp) (narrow : Narrow a)
    (other : Narrow b) : op.checked a b = (op.onWords a b).map some := by
  have divides : a.sdivOverflow b = false := narrow.sdivOverflow
  have quotient := within_eq_some divides (a.sdiv b)
  have remainder := within_eq_some divides (a.srem b)
  cases op with
  | add => exact congrArg Except.ok (within_eq_some (narrow.saddOverflow other) _)
  | sub => exact congrArg Except.ok (within_eq_some (narrow.ssubOverflow other) _)
  | mul => exact congrArg Except.ok (within_eq_some (narrow.smulOverflow other) _)
  | div =>
    have predecessor : (a.sdiv b).ssubOverflow 1 = false := narrow.pred_sdiv
    have lowered := within_eq_some predecessor (a.sdiv b - 1)
    by_cases zero : b = 0
    · simp only [checked, onWords, if_pos zero]
      rfl
    · simp only [checked, onWords, if_neg zero, quotient, remainder, Option.bind_eq_bind,
        Option.bind_some, lowered, Except.map, apply_ite some]
  | mod =>
    have remains : Narrow (a.srem b) := narrow.srem
    have raised := within_eq_some (remains.saddOverflow other) (a.srem b + b)
    by_cases zero : b = 0
    · simp only [checked, onWords, if_pos zero]
      rfl
    · simp only [checked, onWords, if_neg zero, remainder, Option.bind_eq_bind,
        Option.bind_some, raised, Except.map, apply_ite some]

/-- Computing in 128 bits gives the same integer as computing at any size. -/
theorem ArithmeticOp.toInt_onWords {a b : BitVec 128} (op : ArithmeticOp) (narrow : Narrow a)
    (other : Narrow b) :
    (op.onWords a b).map BitVec.toInt = op.onInts a.toInt b.toInt := by
  have zero (word : BitVec 128) : word = 0 ↔ word.toInt = 0 := by
    rw [← BitVec.toInt_inj]
    rfl
  have sign (word : BitVec 128) : word.msb = decide (word.toInt < 0) := BitVec.msb_eq_toInt
  cases op with
  | add =>
    exact congrArg Except.ok (BitVec.toInt_add_of_not_saddOverflow
      (by rw [narrow.saddOverflow other]; decide))
  | sub =>
    exact congrArg Except.ok (BitVec.toInt_sub_of_not_ssubOverflow
      (by rw [narrow.ssubOverflow other]; decide))
  | mul =>
    exact congrArg Except.ok (BitVec.toInt_mul_of_not_smulOverflow
      (by rw [narrow.smulOverflow other]; decide))
  | div =>
    by_cases none : b.toInt = 0
    · simp only [onWords, onInts, if_pos ((zero b).mpr none), if_pos none]
      rfl
    · have signs : (a.srem b ≠ 0 ∧ a.msb ≠ b.msb) ↔ (a.toInt.tmod b.toInt ≠ 0 ∧
          ¬(a.toInt.tmod b.toInt < 0 ↔ b.toInt < 0)) := by
        rw [Ne, zero, BitVec.toInt_srem, sign a, sign b, Ne, decide_eq_decide]
        exact and_congr_right fun remains => by rw [tmod_neg_iff remains]
      have lowered : (a.sdiv b - 1).toInt = a.toInt.tdiv b.toInt - 1 := by
        rw [BitVec.toInt_sub_of_not_ssubOverflow (by rw [narrow.pred_sdiv]; decide),
          narrow.toInt_sdiv]
        rfl
      simp only [onWords, onInts, if_neg (mt (zero b).mp none), if_neg none, Except.map, signs,
        apply_ite BitVec.toInt, lowered, narrow.toInt_sdiv]
  | mod =>
    by_cases none : b.toInt = 0
    · simp only [onWords, onInts, if_pos ((zero b).mpr none), if_pos none]
      rfl
    · have signs : (a.srem b ≠ 0 ∧ (a.srem b).msb ≠ b.msb) ↔ (a.toInt.tmod b.toInt ≠ 0 ∧
          ¬(a.toInt.tmod b.toInt < 0 ↔ b.toInt < 0)) := by
        rw [Ne, zero, sign, sign b, Ne, decide_eq_decide, BitVec.toInt_srem]
      have raised : (a.srem b + b).toInt = a.toInt.tmod b.toInt + b.toInt := by
        rw [BitVec.toInt_add_of_not_saddOverflow
          (by rw [narrow.srem.saddOverflow other]; decide), BitVec.toInt_srem]
      simp only [onWords, onInts, if_neg (mt (zero b).mp none), if_neg none, Except.map, signs,
        apply_ite BitVec.toInt, raised, BitVec.toInt_srem]

/-! ### Values -/

namespace Value

variable {lhs rhs : Value} {x y : Int}

/-- A value that denotes an integer either holds it in 64 bits or is a big integer. -/
theorem int?_eq_some (denotes : lhs.int? = some x) :
    (∃ word, lhs = .integer word ∧ word.toInt = x) ∨ lhs = .bigInteger x := by
  cases lhs with
  | integer word => exact .inl ⟨word, rfl, Option.some.inj denotes⟩
  | bigInteger value => exact .inr (congrArg bigInteger (Option.some.inj denotes))
  | _ => cases denotes

theorem isDouble_of_int? (denotes : lhs.int? = some x) : lhs.isDouble = false := by
  rcases int?_eq_some denotes with ⟨word, rfl, -⟩ | rfl <;> rfl

/-- The number a value denotes is enough to know what arithmetic on it gives. -/
theorem arithmetic_eq (op : ArithmeticOp) (denotes : lhs.int? = some x)
    (also : rhs.int? = some y) : lhs.arithmetic op rhs = (op.onInts x y).map ofInt := by
  unfold arithmetic
  split
  · rename_i a b first second
    rcases int?_eq_some denotes with ⟨_, rfl, rfl⟩ | rfl
    · rcases int?_eq_some also with ⟨_, rfl, rfl⟩ | rfl
      · cases first
        cases second
        rw [← toInt_widen a, ← toInt_widen b,
          ← op.toInt_onWords (narrow_widen a) (narrow_widen b)]
        cases op.onWords (widen a) (widen b) <;> rfl
      · cases second
    · cases first
  · simp only [isDouble_of_int? denotes, isDouble_of_int? also, denotes, also, Bool.or_self,
      Bool.false_eq_true, if_false]

theorem order_eq (denotes : lhs.int? = some x) (also : rhs.int? = some y) :
    lhs.order rhs = .ok (compare x y) := by
  unfold order
  split
  · rename_i a b first second
    rcases int?_eq_some denotes with ⟨_, rfl, rfl⟩ | rfl
    · rcases int?_eq_some also with ⟨_, rfl, rfl⟩ | rfl
      · cases first
        cases second
        refine congrArg Except.ok ?_
        show compareOfLessAndEq a b = compareOfLessAndEq a.toInt b.toInt
        simp only [compareOfLessAndEq, Int64.lt_iff_toInt_lt, Int64.toInt_inj]
      · cases second
    · cases first
  · simp only [isDouble_of_int? denotes, isDouble_of_int? also, denotes, also, Bool.or_self,
      Bool.false_eq_true, if_false]

end Value

end ObjectMachine
