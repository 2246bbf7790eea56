/-
This file says what it is to leave the registers of a machine alone, which are all of it but
the heap and the continuation lists, and never to find the stack too deep. Up to its next call
the interpreter does so: only the start and the end of an activation and its moves between the
loops touch the registers, and these have theorems of their own.
-/

import ObjectMachine.Proofs.Coherence
import ObjectMachine.Proofs.Stepping

namespace ObjectMachine

/-! ### Registers -/

/-- What a machine knows besides its heap and the continuation lists. -/
structure Registers where
  globals : Dictionary Value
  selectors : EngineSelectors
  config : TierConfig
  depth : Nat
  transfersToTier2 : Nat
  transfersToTier1 : Nat

def Machine.registers (machine : Machine) : Registers :=
  ⟨machine.globals, machine.selectors, machine.config, machine.depth, machine.transfersToTier2,
    machine.transfersToTier1⟩

def RuntimeError.isOverflow : RuntimeError → Bool
  | .stackOverflow _ => true
  | _ => false

/-- Whether a failure is that of too many activations. -/
def Abrupt.isOverflow : Abrupt → Bool
  | .error cause => cause.isOverflow
  | _ => false

namespace Engine

/-- A computation ended with these registers and, if it failed, not for depth. -/
inductive Spared {α : Type} (registers : Registers) : EStateM.Result Abrupt Machine α → Prop
  | ok {value : α} {machine : Machine} (same : machine.registers = registers) :
    Spared registers (.ok value machine)
  | error {abrupt : Abrupt} {machine : Machine} (same : machine.registers = registers)
    (shallow : abrupt.isOverflow = false) : Spared registers (.error abrupt machine)

/-- A computation leaves the registers alone and never fails for depth. -/
def Spares {α : Type} (computation : Engine α) : Prop :=
  ∀ machine, Spared machine.registers (computation machine)

section

variable {α β : Type}

theorem Spares.of_ok {computation : Engine α} (spares : Spares computation)
    {machine after : Machine} {value : α} (ran : computation machine = .ok value after) :
    after.registers = machine.registers := by
  have spared := spares machine
  rw [ran] at spared
  cases spared with
  | ok same => exact same

theorem Spares.of_error {computation : Engine α} (spares : Spares computation)
    {machine after : Machine} {abrupt : Abrupt}
    (failed : computation machine = .error abrupt after) :
    after.registers = machine.registers ∧ abrupt.isOverflow = false := by
  have spared := spares machine
  rw [failed] at spared
  cases spared with
  | error same shallow => exact ⟨same, shallow⟩

theorem Spares.pure {value : α} : Spares (pure value) := fun _ => .ok rfl

theorem Spares.bind {computation : Engine α} {next : α → Engine β} (spares : Spares computation)
    (follows : ∀ value, Spares (next value)) : Spares (computation >>= next) := by
  intro machine
  cases ran : computation machine with
  | ok value after =>
    rw [bind_of_ok ran, ← spares.of_ok ran]
    exact follows value after
  | error abrupt after =>
    rw [bind_of_error ran]
    obtain ⟨same, shallow⟩ := spares.of_error ran
    exact .error same shallow

theorem spares_throw {abrupt : Abrupt} (shallow : abrupt.isOverflow = false) :
    Spares (throw abrupt : Engine α) :=
  fun _ => .error rfl shallow

theorem spares_read (read : Heap → α) : Spares (heapValue read) := fun _ => .ok rfl

theorem spares_change (change : Heap → Heap) : Spares (changeHeap change) := fun _ => .ok rfl

theorem spares_change? (change : Heap → Option Heap) : Spares (changeHeap? change) := by
  intro machine
  unfold changeHeap?
  split
  · exact .ok rfl
  · exact .error rfl rfl

theorem spares_allocate (add : Heap → α × Heap) : Spares (allocate add) := fun _ => .ok rfl

end

end Engine

/-! ### Numbers -/

namespace Value

variable {cause : RuntimeError}

theorem shallow_onWords {op : ArithmeticOp} {first second : BitVec 128}
    (failed : op.onWords first second = .error cause) : cause.isOverflow = false := by
  cases op with
  | div | mod =>
    simp only [ArithmeticOp.onWords] at failed
    split at failed <;> cases failed
    rfl
  | _ => cases failed

theorem shallow_onInts {op : ArithmeticOp} {first second : Int}
    (failed : op.onInts first second = .error cause) : cause.isOverflow = false := by
  cases op with
  | div | mod =>
    simp only [ArithmeticOp.onInts] at failed
    split at failed <;> cases failed
    rfl
  | _ => cases failed

theorem shallow_map {α β : Type} {result : Except RuntimeError α} {change : α → β}
    (shallow : ∀ cause, result = .error cause → cause.isOverflow = false)
    (failed : result.map change = .error cause) : cause.isOverflow = false := by
  cases result with
  | ok value => cases failed
  | error reason =>
    cases failed
    exact shallow _ rfl

theorem shallow_arithmetic {op : ArithmeticOp} {first second : Value}
    (failed : arithmetic op first second = .error cause) : cause.isOverflow = false := by
  unfold arithmetic at failed
  split at failed
  · exact shallow_map (fun _ => shallow_onWords) failed
  · split at failed
    · split at failed <;> cases failed
      rfl
    · split at failed
      · exact shallow_map (fun _ => shallow_onInts) failed
      · cases failed
        rfl

theorem shallow_order {first second : Value} (failed : order first second = .error cause) :
    cause.isOverflow = false := by
  unfold order at failed
  split at failed
  · cases failed
  · split at failed
    · split at failed
      · split at failed <;> cases failed
        rfl
      · cases failed
        rfl
    · split at failed <;> cases failed
      rfl

theorem shallow_increment {value : Value} {delta : Int64} {operation : String}
    (failed : increment value delta operation = .error cause) : cause.isOverflow = false := by
  unfold increment at failed
  split at failed
  · exact shallow_arithmetic failed
  · cases failed
    rfl

end Value

end ObjectMachine
