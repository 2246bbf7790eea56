/-
This file does for the operations of the machine what has been done for its instructions:
run from related machines, and with callers that match, an operation ends alike. The
conditional loop is the only one that spends fuel of its own; where the simulation lets
the first run be the one to run out, the second may have more.
-/

import ObjectMachine.Proofs.Lockstep

namespace ObjectMachine

namespace Simulation

variable {sim : Simulation}

/-! ### Operands -/

theorem matches_argument (arguments : List Value) (position : Nat) :
    sim.Matches (Operation.argument arguments position)
      (Operation.argument arguments position) := by
  unfold Operation.argument
  split
  · exact .pure trivial
  · exact follows_raise _

theorem matches_asInteger (value : Value) :
    sim.Matches (Operation.asInteger value) (Operation.asInteger value) := by
  unfold Operation.asInteger
  split
  · exact .pure trivial
  · exact follows_raise _

theorem matches_asBlock (value : Value) :
    sim.Matches (Operation.asBlock value) (Operation.asBlock value) := by
  cases value with
  | block block => exact .pure trivial
  | _ => exact follows_raise _

theorem matches_asClass (value : Value) :
    sim.Matches (Operation.asClass value) (Operation.asClass value) := by
  cases value with
  | classValue cls => exact .pure trivial
  | _ => exact follows_raise _

theorem matches_asArray (value : Value) :
    sim.Matches (Operation.asArray value) (Operation.asArray value) := by
  cases value with
  | array array => exact .pure trivial
  | _ => exact follows_raise _

theorem matches_asTruth (value : Value) :
    sim.Matches (Operation.asTruth value) (Operation.asTruth value) := by
  cases value with
  | bool truth => exact .pure trivial
  | _ => exact follows_raise _

/-! ### Arrays -/

theorem matches_arraySlot (index : Int64) (length : Nat) :
    sim.Matches (Operation.arraySlot index length) (Operation.arraySlot index length) := by
  unfold Operation.arraySlot
  split
  · exact .pure trivial
  · exact follows_raise _

theorem matches_arrayLengthOf (array : ArrayId) :
    sim.Matches (Operation.arrayLengthOf array) (Operation.arrayLengthOf array) :=
  (follows_read _ fun _ => rfl).imp fun _ _ => trivial

theorem matches_arrayElement? (array : ArrayId) (position : Nat) :
    sim.Matches (Operation.arrayElement? array position)
      (Operation.arrayElement? array position) :=
  (follows_read _ fun _ => rfl).imp fun _ _ => trivial

theorem matches_setArrayElement (array : ArrayId) (position : Nat) (value : Value) :
    sim.Matches (Operation.setArrayElement array position value)
      (Operation.setArrayElement array position value) :=
  follows_change (.setArrayElement array position value) (fun _ => rfl) fun _ _ => trivial

section

variable {first second : Caller} (calls : sim.Calls first second)

include calls

/-! ### Blocks and loops -/

theorem matches_evaluate (block : BlockId) (arguments : Arguments) :
    sim.Matches (first.evaluate block arguments) (second.evaluate block arguments) := by
  refine .bind (follows_read _ fun _ => rfl) fun method _ => ?_
  refine .bind (follows_read _ fun _ => rfl) fun expected _ => ?_
  dsimp only
  split
  · exact calls _ _ _
  · exact follows_raise _

theorem matches_valueOf (value : Value) :
    sim.Matches (first.valueOf value) (second.valueOf value) := by
  cases value with
  | block block => exact matches_evaluate calls block .none
  | _ => exact .pure trivial

theorem matches_eachInteger (block : BlockId) (limit value : Int64) :
    sim.Matches (Operation.eachInteger first block limit value)
      (Operation.eachInteger second block limit value) := by
  induction value using Operation.eachInteger.induct limit with
  | case1 value within inductionHypothesis =>
    rw [Operation.eachInteger_eq, Operation.eachInteger_eq, if_pos within, if_pos within]
    refine .bind (matches_evaluate calls block _) fun _ _ => ?_
    cases counted : checkedAdd? value 1 with
    | some next => exact inductionHypothesis next counted
    | none => exact .pure trivial
  | case2 value beyond =>
    rw [Operation.eachInteger_eq, Operation.eachInteger_eq, if_neg beyond, if_neg beyond]
    exact .pure trivial

omit calls

/-- How much fuel the second run needs beside that of the first. -/
def Spends (sim : Simulation) (fuel more : Nat) : Prop :=
  fuel = more ∨ sim.patient ∧ fuel ≤ more

theorem follows_outOfFuel {α : Type} {post : α → Prop} {more : Nat} {computation : Nat → Engine α}
    (spends : sim.Spends 0 more) (exhausted : computation 0 = throw .outOfFuel) :
    sim.Follows post (throw .outOfFuel) (computation more) := by
  intro x y related
  rcases spends with rfl | ⟨patient, -⟩
  · rw [exhausted]
    exact .error related (sim.lenient fun _ same => by cases same)
  · exact .fuel patient

theorem Spends.succ {fuel more : Nat} (spends : sim.Spends (fuel + 1) more) :
    ∃ rest, more = rest + 1 ∧ sim.Spends fuel rest := by
  rcases spends with rfl | ⟨patient, enough⟩
  · exact ⟨fuel, rfl, .inl rfl⟩
  · exact ⟨more - 1, by omega, .inr ⟨patient, by omega⟩⟩

include calls

theorem matches_eachElement (array : ArrayId) (block : BlockId) (position : Nat) {fuel more : Nat}
    (spends : sim.Spends fuel more) :
    sim.Matches (Operation.eachElement first array block position fuel)
      (Operation.eachElement second array block position more) := by
  induction fuel generalizing more position with
  | zero => exact follows_outOfFuel spends rfl
  | succ fuel inductionHypothesis =>
    obtain ⟨rest, rfl, spendsRest⟩ := spends.succ
    refine .bind (matches_arrayElement? array position) fun element _ => ?_
    cases element with
    | none => exact .pure trivial
    | some element =>
      exact .bind (matches_evaluate calls block _) fun _ _ =>
        inductionHypothesis (position + 1) spendsRest

theorem matches_whileHolds (condition : BlockId) (body : Value) {fuel more : Nat}
    (spends : sim.Spends fuel more) :
    sim.Matches (Operation.whileHolds first condition body fuel)
      (Operation.whileHolds second condition body more) := by
  induction fuel generalizing more with
  | zero => exact follows_outOfFuel spends rfl
  | succ fuel inductionHypothesis =>
    obtain ⟨rest, rfl, spendsRest⟩ := spends.succ
    refine .bind (matches_evaluate calls condition .none) fun truth _ => ?_
    cases truth with
    | bool truth =>
      cases truth with
      | true => exact .bind (matches_valueOf calls body) fun _ _ => inductionHypothesis spendsRest
      | false => exact .pure trivial
    | _ => exact follows_raise _

/-! ### Application -/

theorem matches_apply (operation : Operation) (receiver : Value) (arguments : List Value)
    {fuel more : Nat} (spends : sim.Spends fuel more) :
    sim.Matches (operation.apply first fuel receiver arguments)
      (operation.apply second more receiver arguments) := by
  have argument (position : Nat) :
      sim.Matches (Operation.argument arguments position)
        (Operation.argument arguments position) := matches_argument arguments position
  have ofArgument (position : Nat) :
      sim.Matches (do first.valueOf (← Operation.argument arguments position))
        (do second.valueOf (← Operation.argument arguments position)) :=
    .bind (argument position) fun value _ => matches_valueOf calls value
  have unary {α : Type} (value : α) : sim.Matches (pure value) (pure value) := .pure trivial
  cases operation with
  | identical | equalNumbers | unequalNumbers =>
    exact .bind (argument 0) fun _ _ => unary _
  | itself | isNil | notNil => exact unary _
  | classOf => exact .bind (follows_read _ fun _ => by cases receiver <;> rfl) fun _ _ => unary _
  | doesNotUnderstand =>
    refine .bind (argument 0) fun selector _ => ?_
    refine .bind (matches_displayString selector) fun text _ => ?_
    exact .bind (matches_printString receiver) fun _ _ => follows_raise _
  | escapedBlock => exact follows_raise _
  | unknownGlobal =>
    refine .bind (argument 0) fun name _ => ?_
    exact .bind (matches_displayString name) fun _ _ => follows_raise _
  | arithmetic op =>
    exact .bind (argument 0) fun _ _ => (follows_orRaise _).imp fun _ _ => trivial
  | comparison test =>
    refine .bind (argument 0) fun _ _ => ?_
    exact .bind (follows_orRaise _) fun _ _ => unary _
  | asDouble =>
    unfold Operation.apply
    dsimp only
    split
    · exact unary _
    · exact follows_raise _
  | toDo =>
    refine .bind (matches_asInteger receiver) fun start _ => ?_
    refine .bind (argument 0) fun limit _ => ?_
    have loop (limit : Int64) :
        sim.Matches
          (do
            let block ← Operation.asBlock (← Operation.argument arguments 1)
            Operation.eachInteger first block limit start
            return receiver)
          (do
            let block ← Operation.asBlock (← Operation.argument arguments 1)
            Operation.eachInteger second block limit start
            return receiver) := by
      refine .bind (argument 1) fun value _ => ?_
      refine .bind (matches_asBlock value) fun block _ => ?_
      exact .bind (matches_eachInteger calls block _ _) fun _ _ => unary _
    cases limit with
    | double limit => exact loop limit.floorInt64
    | _ => exact .bind (matches_asInteger _) fun limit _ => loop limit
  | ifTrue | ifFalse | and | or =>
    refine .bind (matches_asTruth receiver) fun truth _ => ?_
    cases truth with
    | true => first | exact ofArgument 0 | exact unary _
    | false => first | exact ofArgument 0 | exact unary _
  | ifTrueIfFalse | ifFalseIfTrue =>
    exact .bind (matches_asTruth receiver) fun truth _ => ofArgument _
  | not => exact .bind (matches_asTruth receiver) fun truth _ => unary _
  | blockValue =>
    exact .bind (matches_asBlock receiver) fun block _ => matches_evaluate calls block .none
  | blockValueWith =>
    refine .bind (matches_asBlock receiver) fun block _ => ?_
    exact .bind (argument 0) fun _ _ => matches_evaluate calls block _
  | blockValueWithWith =>
    refine .bind (matches_asBlock receiver) fun block _ => ?_
    refine .bind (argument 0) fun _ _ => ?_
    exact .bind (argument 1) fun _ _ => matches_evaluate calls block _
  | whileTrue =>
    refine .bind (matches_asBlock receiver) fun condition _ => ?_
    refine .bind (argument 0) fun body _ => ?_
    exact .bind (matches_whileHolds calls condition body spends) fun _ _ => unary _
  | newArray =>
    refine .bind (matches_asClass receiver) fun _ _ => ?_
    refine .bind (argument 0) fun value _ => ?_
    refine .bind (matches_asInteger value) fun size _ => ?_
    split
    · exact follows_raise _
    · split
      · exact follows_indexFault
      · exact matches_newArray _
  | arrayAt =>
    refine .bind (matches_asArray receiver) fun array _ => ?_
    refine .bind (argument 0) fun value _ => ?_
    refine .bind (matches_asInteger value) fun index _ => ?_
    refine .bind (matches_arrayLengthOf array) fun length _ => ?_
    refine .bind (matches_arraySlot index length) fun position _ => ?_
    exact .bind (matches_arrayElement? array position) fun _ _ =>
      (follows_orFault _).imp fun _ _ => trivial
  | arrayAtPut =>
    refine .bind (matches_asArray receiver) fun array _ => ?_
    refine .bind (argument 0) fun value _ => ?_
    refine .bind (matches_asInteger value) fun index _ => ?_
    refine .bind (matches_arrayLengthOf array) fun length _ => ?_
    refine .bind (matches_arraySlot index length) fun position _ => ?_
    refine .bind (argument 1) fun value _ => ?_
    exact .bind (matches_setArrayElement array position value) fun _ _ => unary _
  | arrayLength =>
    refine .bind (matches_asArray receiver) fun array _ => ?_
    exact .bind (matches_arrayLengthOf array) fun _ _ => unary _
  | arrayDo =>
    refine .bind (matches_asArray receiver) fun array _ => ?_
    refine .bind (argument 0) fun value _ => ?_
    refine .bind (matches_asBlock value) fun block _ => ?_
    exact .bind (matches_eachElement calls array block 0 spends) fun _ _ => unary _
  | newInstance =>
    refine .bind (matches_asClass receiver) fun cls _ => ?_
    exact .bind (follows_allocate (.addInstance cls) (fun _ => rfl) (fun _ => rfl)
      fun _ _ => trivial) fun _ _ => unary _
  | className =>
    refine .bind (matches_asClass receiver) fun cls _ => ?_
    exact .bind (follows_read _ fun _ => rfl) fun _ _ => unary _
  | classSuperclass =>
    refine .bind (matches_asClass receiver) fun cls _ => ?_
    refine .bind (follows_read _ fun _ => rfl) fun superclass _ => ?_
    cases superclass <;> exact unary _

end

end Simulation

end ObjectMachine
