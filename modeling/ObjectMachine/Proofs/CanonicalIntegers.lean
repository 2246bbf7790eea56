/-
This file keeps integers canonical through whole runs. The only new numbers that a step makes
have 64 bits from the start or come out of arithmetic, which makes a value from its number; so
a step takes a state whose integers are canonical to another one. A host may put in anything at
any time, as long as it makes integers from their numbers.
-/

import ObjectMachine.Proofs.CanonicalRuns

namespace ObjectMachine

open Engine

/-! ### Canonical integers -/

namespace Value

/-- The number the value denotes, if it denotes an integer, is held the one way there is. -/
def Canonical (value : Value) : Prop := ∀ n, value.int? = some n → value = ofInt n

theorem canonical_ofInt (n : Int) : (ofInt n).Canonical := by
  intro m denotes
  rw [int?_ofInt] at denotes
  exact congrArg ofInt (Option.some.inj denotes)

theorem canonical_integer (word : Int64) : (integer word).Canonical := by
  rintro _ ⟨⟩
  exact (ofInt_toInt word).symm

/-- Whatever is no integer is canonical. -/
theorem canonical_of_int? {value : Value} (none : value.int? = none) : value.Canonical := by
  intro n denotes
  rw [none] at denotes
  cases denotes

/-- A canonical big integer does not fit 64 bits. -/
theorem Canonical.big {n : Int} (canonical : (bigInteger n).Canonical) :
    n < leastInteger ∨ largestInteger < n := by
  have same : bigInteger n = ofInt n := canonical n rfl
  unfold ofInt at same
  split at same
  · cases same
  · omega

/-- Canonical integers are identical exactly when they are the same number. -/
theorem Canonical.identical_iff {first second : Value} {x y : Int} (canonical : first.Canonical)
    (other : second.Canonical) (denotes : first.int? = some x) (also : second.int? = some y) :
    first.identical second = true ↔ x = y := by
  rw [identical, beq_iff_eq]
  constructor
  · rintro rfl
    exact Option.some.inj (denotes.symm.trans also)
  · rintro rfl
    rw [canonical x denotes, other x also]

end Value

/-- Integers are to be canonical; what rows there are does not matter. -/
def Canon.integers : Canon where
  holds := Value.Canonical
  rows _ := True
  plain {value} plain := Value.canonical_of_int? (by cases value <;> first | rfl | cases plain)
  ofInt := Value.canonical_ofInt
  classOf _ _ := Value.canonical_of_int? rfl
  superclass _ _ := Value.canonical_of_int? rfl
  setField _ _ _ := trivial
  migrate _ _ _ := trivial
  aside _ _ := trivial

/-- No object or block makes a difference to integers. -/
def Succession.integers : Succession where
  among canon := canon = .integers
  newObject := by
    rintro _ heap cls rfl _ _
    exact ⟨.integers, rfl, fun _ holds => holds, trivial, Value.canonical_of_int? rfl⟩
  newBlock := by
    rintro _ heap block rfl _
    exact ⟨.integers, rfl, fun _ holds => holds, trivial, Value.canonical_of_int? rfl⟩

/-! ### Whole runs -/

namespace State

/-- A step keeps integers canonical. -/
theorem canonical_step {before after : State} (canonical : before.Obeys .integers)
    (stepped : before.step = some after) : after.Obeys .integers := by
  have among : Succession.integers.among .integers := rfl
  obtain ⟨_, rfl, -, obeys⟩ := canonical.step among stepped
  exact obeys

/-- Somewhere in a state there is a value. -/
inductive Holds (state : State) (value : Value) : Prop
  | global {name : Symbol} (found : state.machine.globals.get? name = some value)
  | element {array : ArrayId} (member : value ∈ state.machine.heap.arrays.get array)
  | reference {object : InstanceId}
    (member : value ∈ (state.machine.heap.instances.get object).references)
  | field {object : InstanceId} {field : Nat}
    (found : state.machine.heap.getField? object field = some value)
  | slot {context : ContextId}
    (member : value ∈ (state.machine.heap.contexts.get context).slots)
  | literal {method : MethodId}
    (member : value ∈ (state.machine.heap.methods.get method).literals)
  | focus (member : value ∈ state.focus.values)
  | waiting {waits : Waiting} (waiting : waits ∈ state.waiting) (member : value ∈ waits.values)

theorem canonical_iff (state : State) :
    state.Obeys .integers ↔ ∀ value, state.Holds value → value.Canonical := by
  constructor
  · intro canonical value held
    have stores := canonical.machine.heap.stores
    cases held with
    | global found => exact canonical.machine.globals _ value found
    | element member => exact stores.elements _ value member
    | reference member => exact stores.references _ value member
    | field found => exact Heap.holds_getField? stores found
    | slot member => exact stores.slots _ value member
    | literal member => exact stores.literals _ value member
    | focus member => exact canonical.focus value member
    | @waiting waits waiting member =>
      refine canonical.waiting _ waiting value ?_
      cases waits with
      | activation leg live next reply => exact member
      | operation pending => exact List.mem_append_right _ member
  · intro held
    refine ⟨⟨⟨⟨?_, ?_, ?_, ?_⟩, trivial⟩, fun name value found => held value (.global found)⟩,
      fun value member => held value (.focus member), fun waits waiting value member => ?_⟩
    · exact fun array value member => held value (.element member)
    · exact fun object value member => held value (.reference member)
    · exact fun context value member => held value (.slot member)
    · exact fun method value member => held value (.literal member)
    · cases waits with
      | activation leg live next reply => exact held value (.waiting waiting member)
      | operation pending =>
        rcases List.mem_append.mp member with block | member
        · obtain ⟨block, -, rfl⟩ := List.mem_map.mp block
          exact Value.canonical_of_int? rfl
        · exact held value (.waiting waiting member)

end State

/-- A value as a host hands it in: an integer is made from its number. -/
inductive Value.HandedIn : Value → Prop
  | integer (n : Int) : (ofInt n).HandedIn
  | other {value : Value} (none : value.int? = none) : value.HandedIn

theorem Value.handedIn_iff (value : Value) : value.HandedIn ↔ value.Canonical := by
  constructor
  · rintro (n | none)
    · exact canonical_ofInt n
    · exact canonical_of_int? none
  · intro canonical
    cases denotes : value.int? with
    | none => exact .other denotes
    | some n =>
      rw [canonical n denotes]
      exact .integer n

/--
A state that steps and hosts lead to. Between any two steps a host may do what it likes with
the values that are there and those it hands in, sends messages and makes calls included.
-/
inductive State.Arises : State → Prop
  | start (state : State) (given : ∀ value, state.Holds value → value.HandedIn) : Arises state
  | hosted {before after : State} (arises : Arises before)
    (adds : ∀ value, after.Holds value → before.Holds value ∨ value.HandedIn) : Arises after
  | stepped {before after : State} (arises : Arises before)
    (stepped : before.step = some after) : Arises after

namespace State

theorem Arises.canonical {state : State} (arises : state.Arises) : state.Obeys .integers := by
  induction arises with
  | start state given =>
    exact (canonical_iff state).mpr fun value held =>
      (Value.handedIn_iff value).mp (given value held)
  | hosted _ adds canonical =>
    refine (canonical_iff _).mpr fun value held => ?_
    exact (adds value held).elim ((canonical_iff _).mp canonical value)
      (Value.handedIn_iff value).mp
  | stepped _ stepped canonical => exact canonical_step canonical stepped

theorem Arises.reaches {count : Nat} {first last : State} (arises : first.Arises)
    (reaches : Reaches count first last) : last.Arises := by
  induction reaches with
  | here => exact arises
  | step stepped _ inductionHypothesis => exact inductionHypothesis (.stepped arises stepped)

/-- What a call that ends in an answer comes to is among these states. -/
theorem Arises.answered {fuel : Nat} {made : Call} {machine after : Machine} {value : Value}
    {waiting : List Waiting} (arises : State.Arises ⟨machine, .call made, waiting⟩)
    (ran : made.make (Engine.invoke fuel) machine = .ok value after) :
    State.Arises ⟨after, .answer value, waiting⟩ := by
  obtain ⟨count, reaches⟩ := reaches_answered ran waiting
  exact arises.reaches reaches

/-- So is what a message from a host comes to. -/
theorem Arises.sent {fuel : Nat} {state : State} {receiver value : Value} {selector : String}
    {arguments : List Value} {after : Machine} (arises : state.Arises)
    (given : ∀ value ∈ receiver :: arguments, state.Holds value ∨ value.HandedIn)
    (ran : Engine.send fuel receiver selector arguments state.machine = .ok value after) :
    State.Arises ⟨after, .answer value, []⟩ := by
  have known : Canon.integers.All (receiver :: arguments) := fun value member =>
    (given value member).elim ((canonical_iff state).mp arises.canonical value)
      (Value.handedIn_iff value).mp
  have interned : Machine.Obeys
      { state.machine with heap := (state.machine.heap.intern selector).2 } .integers :=
    ⟨⟨arises.canonical.machine.heap.stores, trivial⟩, arises.canonical.machine.globals⟩
  have sends : Engine.sendMessage (Engine.invoke fuel) receiver
      (state.machine.heap.intern selector).1 arguments
      { state.machine with heap := (state.machine.heap.intern selector).2 } = .ok value after :=
    ran
  rw [Caller.sendMessage_eq] at sends
  have leaves := keeps_messageCall known (state.machine.heap.intern selector).1 _ interned
  cases found : Engine.messageCall receiver (state.machine.heap.intern selector).1 arguments
      { state.machine with heap := (state.machine.heap.intern selector).2 } with
  | ok made between =>
    rw [found] at leaves
    rw [bind_of_ok found] at sends
    cases leaves with
    | ok canonical called =>
      have calling : State.Obeys ⟨between, .call made, []⟩ .integers :=
        ⟨canonical, called, fun _ member => by cases member⟩
      have begun : State.Arises ⟨between, .call made, []⟩ :=
        .hosted arises fun value held =>
          .inr ((Value.handedIn_iff value).mpr ((canonical_iff _).mp calling value held))
      exact begun.answered sends
  | error abrupt between =>
    rw [bind_of_error found] at sends
    cases sends

end State

end ObjectMachine
