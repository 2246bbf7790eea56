/-
This file puts together what is true of integers at every size. Arithmetic is exact on all of
them, however an operand is held; its results are held in 64 bits where they fit; and since a
host makes integers from their numbers, no run ever has two values for one integer. So it is
enough to compare values to compare numbers.
-/

import ObjectMachine.Bytecode.Assembler
import ObjectMachine.Proofs.CanonicalIntegers
import ObjectMachine.Proofs.ExactArithmetic

namespace ObjectMachine

/-- An operation gives the one value of the exact result, and fails only to divide by zero. -/
structure ArithmeticOp.GivesExactly (op : ArithmeticOp) (x y : Int)
    (result : Except RuntimeError Value) : Prop where
  fails : result = .error .divisionByZero ↔ op.DividesByZero y
  denotes : ¬op.DividesByZero y → ∃ value, result = .ok value ∧ value.int? = some (op.exact x y)
  held : ∀ value, result = .ok value → ((∃ word, value = .integer word) ↔
    Value.leastInteger ≤ op.exact x y ∧ op.exact x y ≤ Value.largestInteger)

theorem Value.ofInt_eq_integer_iff (n : Int) :
    (∃ word, ofInt n = .integer word) ↔ leastInteger ≤ n ∧ n ≤ largestInteger := by
  unfold ofInt
  split
  · rename_i fits
    exact ⟨fun _ => fits, fun _ => ⟨_, rfl⟩⟩
  · rename_i large
    exact ⟨fun ⟨_, same⟩ => (by cases same), fun fits => absurd fits large⟩

theorem Value.givesExactly_arithmetic (op : ArithmeticOp) {lhs rhs : Value} {x y : Int}
    (denotes : lhs.int? = some x) (also : rhs.int? = some y) :
    op.GivesExactly x y (lhs.arithmetic op rhs) := by
  rw [arithmetic_eq op denotes also, op.onInts_eq]
  by_cases zero : op.DividesByZero y
  · rw [if_pos zero]
    exact ⟨⟨fun _ => zero, fun _ => rfl⟩, fun nonzero => absurd zero nonzero,
      fun _ same => by cases same⟩
  · rw [if_neg zero]
    refine ⟨⟨fun same => (by cases same), fun divides => absurd divides zero⟩,
      fun _ => ⟨ofInt (op.exact x y), rfl, int?_ofInt _⟩, ?_⟩
    rintro _ ⟨⟩
    exact ofInt_eq_integer_iff _

/--
Arithmetic and comparison are those of the integers, for operands in any mix of sizes; no step
of the computation in 128 bits leaves them; and wherever runs and hosts lead to, a big integer
does not fit 64 bits and two integers are identical exactly when they are the same number.
-/
theorem integers_are_exact :
    (∀ (op : ArithmeticOp) (lhs rhs : Value) (x y : Int), lhs.int? = some x →
      rhs.int? = some y → op.GivesExactly x y (lhs.arithmetic op rhs) ∧
        lhs.order rhs = .ok (compare x y)) ∧
    (∀ (op : ArithmeticOp) (a b : Int64), op.checked (Value.widen a) (Value.widen b) =
      (op.onWords (Value.widen a) (Value.widen b)).map some) ∧
    ∀ state : State, state.Arises →
      (∀ n, state.Holds (.bigInteger n) → n < Value.leastInteger ∨ Value.largestInteger < n) ∧
        ∀ (first second : Value) (x y : Int), state.Holds first → state.Holds second →
          first.int? = some x → second.int? = some y →
            (first.identical second = true ↔ x = y) := by
  refine ⟨fun op lhs rhs x y denotes also => ?_, fun op a b => ?_, fun state arises => ?_⟩
  · exact ⟨Value.givesExactly_arithmetic op denotes also, Value.order_eq denotes also⟩
  · exact op.checked_eq (narrow_widen a) (narrow_widen b)
  · have canonical := (State.canonical_iff state).mp arises.canonical
    exact ⟨fun n held => (canonical _ held).big, fun first second x y held other denotes also =>
      (canonical first held).identical_iff (canonical second other) denotes also⟩

/-! ### The integer after the largest of 64 bits -/

/-- A method that answers the integer after its receiver. -/
def successor : Method :=
  { (default : Method) with
    code := ([.pushFrame 0, .inc, .returnLocal] : List Instruction).flatMap
      Instruction.encode |>.toArray
    maxStack := 1 }

/-- The call of that method with the largest integer of 64 bits. -/
def succeedingLargest : State :=
  ⟨{ (default : Machine) with
      heap := ((default : Heap).addMethod successor).2
      config := { maxDepth := 1 } },
    .call ⟨.method ⟨0⟩, .integer 0x7fffffffffffffff, .none⟩, []⟩

theorem canonical_succeedingLargest : succeedingLargest.Obeys .integers := by
  have empty (value : Value) (member : value ∈ (#[] : Array Value)) : value.Canonical :=
    absurd member (Array.not_mem_empty value)
  have blank : (default : Heap).stock.Stores .integers :=
    ⟨fun _ => empty, fun _ => empty, fun _ => empty, fun _ => empty⟩
  refine ⟨⟨⟨?_, trivial⟩, fun name value found => by cases found⟩,
    .one (Value.canonical_integer _), fun _ member => by cases member⟩
  have literals := Table.Everywhere.add blank.literals
    (show ∀ value ∈ successor.literals, value.Canonical from empty)
  exact { blank with literals }

/-- A run comes to a big integer, and the least integer is divided by the one before zero. -/
theorem big_integers_arise : ∃ state : State, state.Arises ∧
    state.Holds (.bigInteger 0x8000000000000000) ∧
    Value.largestInteger < 0x8000000000000000 ∧
    ((Value.bigInteger 0x8000000000000000).identical (.bigInteger 0x8000000000000000) = true ↔
      (0x8000000000000000 : Int) = 0x8000000000000000) ∧
    (Value.integer (-0x8000000000000000)).int? = some (-0x8000000000000000) ∧
    (Value.integer (-1)).int? = some (-1) ∧
    ArithmeticOp.div.GivesExactly (-0x8000000000000000) (-1)
      ((Value.integer (-0x8000000000000000)).arithmetic .div (.integer (-1))) := by
  have arises : State.Arises succeedingLargest :=
    .start _ fun value held => (Value.handedIn_iff value).mpr
      ((State.canonical_iff _).mp canonical_succeedingLargest value held)
  have answers : (succeedingLargest.steps? 5).any fun state =>
      state.focus.values == [.bigInteger 0x8000000000000000] := by decide
  obtain ⟨state, leads, answer⟩ := (Option.any_eq_true _ _).mp answers
  have arises := arises.reaches (State.reaches_of_steps? leads)
  have held : state.Holds (.bigInteger 0x8000000000000000) :=
    .focus (by rw [beq_iff_eq.mp answer]; exact List.mem_singleton_self _)
  obtain ⟨exact, -, runs⟩ := integers_are_exact
  refine ⟨state, arises, held, ?_, (runs state arises).2 _ _ _ _ held held rfl rfl, rfl, rfl,
    (exact .div _ _ _ _ rfl rfl).1⟩
  exact ((runs state arises).1 _ held).resolve_left (by decide)

end ObjectMachine
