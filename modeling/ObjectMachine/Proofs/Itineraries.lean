/-
This file describes the ways of an activation between the two loops. What its turns come to is
kept in a log, the latest first; an itinerary is a log together with the loop that the activation
is in and with where it has to go on there. A loop is only left for the sequential one right
after a backward jump, and for the threaded one in front of a send that is then due there. That
is all that is needed for moves to alternate, for each one back to be followed by its send, and
for moves to be no more than two for every backward jump.
-/

import ObjectMachine.Run

namespace ObjectMachine

/-! ### Logs -/

/-- What a turn of an activation comes to. -/
inductive TierEvent
  /-- The instruction at an offset has run to its end in a loop. -/
  | ran (tier : Tier) (offset : Nat)
  /-- The backward jump at an offset has been taken in a loop. -/
  | jumped (tier : Tier) (offset : Nat)
  /-- The send at an offset has moved its receiver to the latest layout and is to be run again. -/
  | migrated (tier : Tier) (offset : Nat)
  /-- The instruction at an offset has put another one in its place, which is to be run. -/
  | replaced (tier : Tier) (offset : Nat)
  /-- The instruction at an offset has not come to its end, and the activation ends with it. -/
  | failed (tier : Tier) (offset : Nat)
  /-- The activation has moved to a loop, to go on there at an offset. -/
  | moved (toward : Tier) (offset : Nat)
deriving DecidableEq

namespace TierEvent

def isMove : TierEvent → Bool
  | .moved .. => true
  | _ => false

/-- Whether an instruction has run that need not be run again. -/
def isProgress : TierEvent → Bool
  | .ran .. | .jumped .. => true
  | _ => false

/-- Whether a backward jump has been taken in the threaded loop. -/
def isThreadedJump : TierEvent → Bool
  | .jumped .threaded _ => true
  | _ => false

end TierEvent

/-- How many moves there are in a log. -/
def moveCount (log : List TierEvent) : Nat := log.countP TierEvent.isMove

/-- How many backward jumps there are in a log that were taken in the threaded loop. -/
def threadedJumpCount (log : List TierEvent) : Nat := log.countP TierEvent.isThreadedJump

@[simp] theorem moveCount_cons (event : TierEvent) (log : List TierEvent) :
    moveCount (event :: log) = moveCount log + if event.isMove then 1 else 0 :=
  List.countP_cons

@[simp] theorem threadedJumpCount_cons (event : TierEvent) (log : List TierEvent) :
    threadedJumpCount (event :: log) =
      threadedJumpCount log + if event.isThreadedJump then 1 else 0 :=
  List.countP_cons

/-! ### Itineraries -/

/-- Where an activation goes on. -/
inductive Due
  | anywhere
  | only (offset : Nat)
  /-- It has ended. -/
  | nowhere

def Due.Allows : Due → Nat → Prop
  | .anywhere, _ => True
  | .only due, offset => offset = due
  | .nowhere, _ => False

/-- The loop that an activation starts in. -/
def TierMode.firstTier (mode : TierMode) : Tier :=
  if mode == .tracing then .sequential else .threaded

/--
A log that an activation may have, with the loop it is in and with where it goes on there.
`sends` tells at which offsets of its code there is a send.
-/
inductive Itinerary (sends : Nat → Prop) (mode : TierMode) : List TierEvent → Tier → Due → Prop
  | start : Itinerary sends mode [] mode.firstTier (.only 0)
  | ran {log : List TierEvent} {tier : Tier} {due : Due} {offset : Nat}
    (earlier : Itinerary sends mode log tier due) (allowed : due.Allows offset) :
    Itinerary sends mode (.ran tier offset :: log) tier .anywhere
  | failed {log : List TierEvent} {tier : Tier} {due : Due} {offset : Nat}
    (earlier : Itinerary sends mode log tier due) (allowed : due.Allows offset) :
    Itinerary sends mode (.failed tier offset :: log) tier .nowhere
  | jumped {log : List TierEvent} {tier : Tier} {due : Due} {offset : Nat}
    (earlier : Itinerary sends mode log tier due) (allowed : due.Allows offset)
    (other : ¬ sends offset) : Itinerary sends mode (.jumped tier offset :: log) tier .anywhere
  | replaced {log : List TierEvent} {tier : Tier} {due : Due} {offset : Nat}
    (earlier : Itinerary sends mode log tier due) (allowed : due.Allows offset)
    (other : ¬ sends offset) :
    Itinerary sends mode (.replaced tier offset :: log) tier (.only offset)
  | migrated {log : List TierEvent} {tier : Tier} {due : Due} {offset : Nat}
    (earlier : Itinerary sends mode log tier due) (allowed : due.Allows offset)
    (send : sends offset) (handsBack : mode = .hybrid → tier = .threaded) :
    Itinerary sends mode (.migrated tier offset :: log) tier (.only offset)
  | ahead {log : List TierEvent} {jump target : Nat}
    (earlier : Itinerary sends mode (.jumped .threaded jump :: log) .threaded .anywhere)
    (hybrid : mode = .hybrid) :
    Itinerary sends mode (.moved .sequential target :: .jumped .threaded jump :: log)
      .sequential (.only target)
  | back {log : List TierEvent} {due : Due} {offset : Nat}
    (earlier : Itinerary sends mode log .sequential due) (allowed : due.Allows offset)
    (send : sends offset) (hybrid : mode = .hybrid) :
    Itinerary sends mode (.moved .threaded offset :: log) .threaded (.only offset)

namespace Itinerary

variable {sends : Nat → Prop} {mode : TierMode} {log before after between : List TierEvent}
  {tier toward : Tier} {due : Due} {offset : Nat} {event : TierEvent}

theorem tail (itinerary : Itinerary sends mode (event :: log) tier due) :
    ∃ tier due, Itinerary sends mode log tier due := by
  cases itinerary <;> exact ⟨_, _, by assumption⟩

/-- What an activation has done by any moment is an itinerary. -/
theorem of_append (itinerary : Itinerary sends mode (after ++ before) tier due) :
    ∃ tier due, Itinerary sends mode before tier due := by
  induction after generalizing tier due with
  | nil => exact ⟨tier, due, itinerary⟩
  | cons event after inductionHypothesis =>
    obtain ⟨_, _, earlier⟩ := itinerary.tail
    exact inductionHypothesis earlier

/-! ### Moves -/

/-- Only the hybrid mode moves activations. -/
theorem moveCount_of_not_hybrid (itinerary : Itinerary sends mode log tier due)
    (other : mode ≠ .hybrid) : moveCount log = 0 := by
  induction itinerary with
  | start => rfl
  | ran _ _ none | failed _ _ none | jumped _ _ _ none | replaced _ _ _ none
  | migrated _ _ _ _ none => rw [moveCount_cons, none]; rfl
  | ahead _ hybrid | back _ _ _ hybrid => exact absurd hybrid other

/-- After an even number of moves, and only then, an activation is in the threaded loop. -/
theorem threaded_iff (itinerary : Itinerary sends .hybrid log tier due) :
    tier = .threaded ↔ moveCount log % 2 = 0 := by
  induction itinerary with
  | start => exact iff_of_true rfl rfl
  | ran _ _ same | failed _ _ same | jumped _ _ _ same | replaced _ _ _ same
  | migrated _ _ _ _ same => exact same
  | @ahead log jump target _ _ same =>
    have even := same.mp rfl
    refine iff_of_false (fun same => by cases same) ?_
    rw [moveCount_cons, TierEvent.isMove, if_pos rfl]
    omega
  | @back log due offset _ _ _ _ same =>
    have odd : ¬ moveCount log % 2 = 0 := fun even => by cases same.mpr even
    refine iff_of_true rfl ?_
    rw [moveCount_cons, TierEvent.isMove, if_pos rfl]
    omega

/-- Moves go to the sequential loop and to the threaded one in turn. -/
theorem toward_iff
    (itinerary : Itinerary sends mode (after ++ .moved toward offset :: before) tier due) :
    toward = .sequential ↔ moveCount before % 2 = 0 := by
  obtain ⟨_, _, moved⟩ := itinerary.of_append
  cases moved with
  | ahead earlier hybrid =>
    subst hybrid
    exact iff_of_true rfl (earlier.threaded_iff.mp rfl)
  | back earlier _ _ hybrid =>
    subst hybrid
    refine iff_of_false (fun same => by cases same) fun even => ?_
    cases earlier.threaded_iff.mpr even

/-- A move to the sequential loop comes right after a backward jump in the threaded one. -/
theorem jumped_of_ahead
    (moved : Itinerary sends mode (.moved .sequential offset :: before) tier due) :
    ∃ jump earlier, before = .jumped .threaded jump :: earlier := by
  cases moved with
  | ahead => exact ⟨_, _, rfl⟩

theorem sends_of_back
    (itinerary : Itinerary sends mode (after ++ .moved .threaded offset :: before) tier due) :
    sends offset := by
  obtain ⟨_, _, moved⟩ := itinerary.of_append
  cases moved with
  | back _ _ send => exact send

/-- An activation that has moved back for a send is still about to run it, whatever the tries. -/
theorem due_of_tries {tries : Nat}
    (itinerary : Itinerary sends mode
      (List.replicate tries (.migrated .threaded offset) ++ .moved .threaded offset :: before)
      tier due) : tier = .threaded ∧ due = .only offset := by
  cases tries with
  | zero =>
    cases itinerary with
    | back => exact ⟨rfl, rfl⟩
  | succ tries =>
    cases itinerary with
    | migrated => exact ⟨rfl, rfl⟩

/-- What is next in front of a send is that send. -/
theorem next_of_due (itinerary : Itinerary sends mode (event :: log) tier due)
    (send : sends offset)
    (waits : ∀ {tier due}, Itinerary sends mode log tier due →
      tier = .threaded ∧ due = .only offset) :
    event = .ran .threaded offset ∨ event = .failed .threaded offset ∨
      event = .migrated .threaded offset := by
  cases itinerary with
  | ran earlier allowed =>
    obtain ⟨rfl, rfl⟩ := waits earlier
    cases allowed
    exact .inl rfl
  | failed earlier allowed =>
    obtain ⟨rfl, rfl⟩ := waits earlier
    cases allowed
    exact .inr (.inl rfl)
  | migrated earlier allowed =>
    obtain ⟨rfl, rfl⟩ := waits earlier
    cases allowed
    exact .inr (.inr rfl)
  | jumped earlier allowed other | replaced earlier allowed other =>
    obtain ⟨-, rfl⟩ := waits earlier
    cases allowed
    exact absurd send other
  | ahead earlier => cases (waits earlier).2
  | back earlier => cases (waits earlier).1

/--
After a move to the threaded loop the send that it was made for may be run again, and nothing
else happens until the send has come to an end there.
-/
theorem settles_of_back
    (itinerary : Itinerary sends mode (after ++ .moved .threaded offset :: before) tier due) :
    ∃ tries rest, after = rest ++ List.replicate tries (.migrated .threaded offset) ∧
      (rest = [] ∨ ∃ later ended, rest = later ++ [ended] ∧
        (ended = .ran .threaded offset ∨ ended = .failed .threaded offset)) := by
  induction after generalizing tier due with
  | nil => exact ⟨0, [], rfl, .inl rfl⟩
  | cons event after inductionHypothesis =>
    obtain ⟨_, _, earlier⟩ := itinerary.tail
    obtain ⟨tries, rest, rfl, rfl | ⟨later, ended, rfl, ends⟩⟩ := inductionHypothesis earlier
    · rcases itinerary.next_of_due earlier.sends_of_back due_of_tries with rfl | rfl | rfl
      · exact ⟨tries, [_], rfl, .inr ⟨[], _, rfl, .inl rfl⟩⟩
      · exact ⟨tries, [_], rfl, .inr ⟨[], _, rfl, .inr rfl⟩⟩
      · exact ⟨tries + 1, [], rfl, .inl rfl⟩
    · exact ⟨tries, event :: later ++ [ended], rfl, .inr ⟨event :: later, ended, rfl, ends⟩⟩

theorem progress_of_ahead {first : Tier} {start : Nat}
    (itinerary : Itinerary sends mode
      (.moved .sequential offset :: (between ++ .moved first start :: before)) tier due) :
    ∃ event ∈ between, event.isProgress := by
  obtain ⟨jump, earlier, same⟩ := itinerary.jumped_of_ahead
  cases between with
  | nil => cases same
  | cons event between =>
    cases same
    exact ⟨_, List.mem_cons_self, rfl⟩

/--
Between two moves an instruction has run that need not be run again, unless the second move
comes right after the first, which has gone to the sequential loop and to a send there.
-/
theorem progress_of_moves {first second : Tier} {start : Nat}
    (itinerary : Itinerary sends mode
      (after ++ .moved second offset :: (between ++ .moved first start :: before)) tier due) :
    (∃ event ∈ between, event.isProgress) ∨
      between = [] ∧ first = .sequential ∧ second = .threaded ∧ offset = start ∧ sends start := by
  obtain ⟨_, _, moved⟩ := itinerary.of_append
  cases second with
  | sequential => exact .inl moved.progress_of_ahead
  | threaded =>
    cases moved with
    | back earlier allowed send hybrid =>
      cases between with
      | nil =>
        cases earlier with
        | ahead =>
          cases allowed
          exact .inr ⟨rfl, rfl, rfl, rfl, send⟩
      | cons event between =>
        -- The last event before a move back is progress or a move ahead, which has progress
        -- before it: the others end the activation, or leave it where this send cannot be.
        have mine : event ∈ event :: between := List.mem_cons_self
        cases event with
        | ran | jumped => exact .inl ⟨_, mine, rfl⟩
        | failed =>
          cases earlier
          cases allowed
        | replaced =>
          cases earlier with
          | replaced _ _ other =>
            cases allowed
            exact absurd send other
        | migrated =>
          cases earlier with
          | migrated _ _ _ handsBack => cases handsBack hybrid
        | moved toward target =>
          cases toward with
          | threaded => cases earlier
          | sequential =>
            obtain ⟨event, member, progress⟩ := earlier.progress_of_ahead
            exact .inl ⟨event, List.mem_cons_of_mem _ member, progress⟩

/-- Every backward jump in the threaded loop pays for a move ahead and for the one back. -/
theorem moveCount_le_of_hybrid (itinerary : Itinerary sends .hybrid log tier due) :
    moveCount log ≤ 2 * threadedJumpCount log ∧
      (tier = .sequential → moveCount log < 2 * threadedJumpCount log) ∧
      (∀ jump earlier, log = .jumped .threaded jump :: earlier →
        moveCount log + 2 ≤ 2 * threadedJumpCount log) := by
  induction itinerary with
  | start => exact ⟨Nat.le_refl _, fun same => by (cases same), fun _ _ same => by (cases same)⟩
  | ran _ _ bounds | failed _ _ bounds | replaced _ _ _ bounds | migrated _ _ _ _ bounds =>
    obtain ⟨all, sequential, -⟩ := bounds
    exact ⟨all, sequential, fun _ _ same => by cases same⟩
  | @jumped log tier due offset _ _ _ bounds =>
    obtain ⟨all, sequential, -⟩ := bounds
    cases tier with
    | threaded =>
      have paid : moveCount (.jumped .threaded offset :: log) + 2 ≤
          2 * threadedJumpCount (.jumped .threaded offset :: log) := by
        simp only [moveCount_cons, threadedJumpCount_cons, TierEvent.isMove,
          TierEvent.isThreadedJump, if_true, Bool.false_eq_true, if_false]
        omega
      exact ⟨by omega, fun _ => by omega, fun _ _ _ => paid⟩
    | sequential => exact ⟨all, sequential, fun _ _ same => by cases same⟩
  | @ahead log jump target _ _ bounds =>
    have paid := bounds.2.2 jump log rfl
    have left : moveCount (.moved .sequential target :: .jumped .threaded jump :: log) <
        2 * threadedJumpCount (.moved .sequential target :: .jumped .threaded jump :: log) := by
      rw [moveCount_cons, threadedJumpCount_cons _ (_ :: log)]
      simp only [TierEvent.isMove, TierEvent.isThreadedJump, if_true, Bool.false_eq_true, if_false]
      omega
    exact ⟨by omega, fun _ => left, fun _ _ same => by cases same⟩
  | @back log due offset _ _ _ _ bounds =>
    have left := bounds.2.1 rfl
    refine ⟨?_, fun same => by (cases same), fun _ _ same => by (cases same)⟩
    simp only [moveCount_cons, threadedJumpCount_cons, TierEvent.isMove,
      TierEvent.isThreadedJump, if_true, Bool.false_eq_true, if_false]
    omega

theorem moveCount_le (itinerary : Itinerary sends mode log tier due) :
    moveCount log ≤ 2 * threadedJumpCount log := by
  by_cases hybrid : mode = .hybrid
  · subst hybrid
    exact itinerary.moveCount_le_of_hybrid.1
  · rw [itinerary.moveCount_of_not_hybrid hybrid]
    exact Nat.zero_le _

end Itinerary

end ObjectMachine
