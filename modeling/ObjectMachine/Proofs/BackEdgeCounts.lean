/-
This file says what a counter of backward jumps comes to, whatever happens to it. A
`Tally` keeps beside the counter how many times it has answered cold since it last
started; what happens to a counter are takes, each under the threshold of its moment, and
restarts.

The counter is that tally modulo the range of its word. A threshold below the greatest
word stops the tally one above itself, so that the counter and the tally are the same and
a jump is hot exactly when the tally has passed the threshold. The greatest word is never
passed: such a jump stays cold for ever, and its counter starts from zero again after
every full range of takes.
-/

import Mathlib.Data.UInt
import ObjectMachine.BackEdge

namespace ObjectMachine

namespace BackEdge

variable {edge : BackEdge} {threshold : UInt32} {times : Nat}

/-- The threshold that decides the next take. -/
def limit (edge : BackEdge) (threshold : UInt32) : UInt32 := edge.latched.getD threshold

theorem take_hot (above : edge.limit threshold < edge.count) :
    edge.take threshold = (.hot, ⟨edge.count, some (edge.limit threshold)⟩) := by
  unfold limit at above
  simp [take, limit, above]

theorem take_cold (within : ¬ edge.limit threshold < edge.count) :
    edge.take threshold = (.cold, ⟨edge.count + 1, some (edge.limit threshold)⟩) := by
  unfold limit at within
  simp [take, limit, within]

theorem latched_take :
    (edge.take threshold).2.latched = some (edge.limit threshold) := by
  by_cases above : edge.limit threshold < edge.count
  · rw [take_hot above]
  · rw [take_cold above]

theorem take_hot_iff :
    (edge.take threshold).1 = .hot ↔ (edge.limit threshold).toNat < edge.count.toNat := by
  rw [← UInt32.lt_iff_toNat_lt]
  by_cases above : edge.limit threshold < edge.count
  · simp [take_hot above, above]
  · simp [take_cold above, above]

theorem count_take_of_hot (hot : (edge.take threshold).1 = .hot) :
    (edge.take threshold).2.count = edge.count := by
  rw [take_hot (UInt32.lt_iff_toNat_lt.mpr (take_hot_iff.mp hot))]

/-! ### Many takes under one threshold -/

/-- How many of a number of takes answer cold. -/
def coldTakes (edge : BackEdge) (threshold : UInt32) (times : Nat) : Nat :=
  if edge.limit threshold = UInt32.ofNat (UInt32.size - 1) then times
  else min times ((edge.limit threshold).toNat + 1 - edge.count.toNat)

theorem takeTimes_add_one :
    edge.takeTimes threshold (times + 1) =
      (if edge.coldTakes threshold (times + 1) = times + 1 then .cold else .hot,
        ⟨edge.count + UInt32.ofNat (edge.coldTakes threshold (times + 1)),
          some (edge.limit threshold)⟩) := rfl

/-- The next take after some is hot when the cold ones among them have used up the room. -/
theorem limit_lt_count_add (below : edge.limit threshold ≠ UInt32.ofNat (UInt32.size - 1)) :
    edge.limit threshold < edge.count + UInt32.ofNat (edge.coldTakes threshold times) ↔
      (edge.limit threshold).toNat + 1 - edge.count.toNat ≤ times := by
  have bound : (edge.limit threshold).toNat < 2 ^ 32 - 1 := by
    have small := (edge.limit threshold).toNat_lt
    have apart : (edge.limit threshold).toNat ≠ 2 ^ 32 - 1 := fun same =>
      below (UInt32.toNat_inj.mp same)
    omega
  have countBound := edge.count.toNat_lt
  have cold : edge.coldTakes threshold times =
      min times ((edge.limit threshold).toNat + 1 - edge.count.toNat) := if_neg below
  rw [UInt32.lt_iff_toNat_lt, UInt32.toNat_add, UInt32.toNat_ofNat', cold]
  omega

/-- A take after some others answers hot when they leave no room, else it is one more cold
take. -/
theorem coldTakes_add_one :
    edge.coldTakes threshold (times + 1) =
      if edge.limit threshold < edge.count + UInt32.ofNat (edge.coldTakes threshold times) then
        edge.coldTakes threshold times
      else edge.coldTakes threshold times + 1 := by
  by_cases greatest : edge.limit threshold = UInt32.ofNat (UInt32.size - 1)
  · have never : ∀ count : UInt32, ¬ edge.limit threshold < count := by
      intro count
      rw [greatest, UInt32.lt_iff_toNat_lt]
      exact Nat.not_lt.mpr (Nat.le_of_lt_succ count.toNat_lt)
    rw [if_neg (never _)]
    simp [coldTakes, greatest]
  · rw [if_congr (limit_lt_count_add greatest) rfl rfl]
    simp only [coldTakes, if_neg greatest]
    split <;> omega

theorem coldTakes_le : edge.coldTakes threshold times ≤ times := by
  unfold coldTakes
  split
  · exact le_refl _
  · exact Nat.min_le_left _ _

/-- While the next take is cold, all takes before it were. -/
theorem coldTakes_of_within (within : ¬ edge.limit threshold <
    edge.count + UInt32.ofNat (edge.coldTakes threshold times)) :
    edge.coldTakes threshold times = times := by
  by_cases greatest : edge.limit threshold = UInt32.ofNat (UInt32.size - 1)
  · exact if_pos greatest
  · rw [limit_lt_count_add greatest] at within
    simp only [coldTakes, if_neg greatest]
    omega

theorem count_takeTimes :
    (edge.takeTimes threshold times).2.count =
      edge.count + UInt32.ofNat (edge.coldTakes threshold times) := by
  cases times with
  | zero => simp [takeTimes, Nat.le_zero.mp coldTakes_le]
  | succ times => rfl

theorem limit_takeTimes :
    (edge.takeTimes threshold times).2.limit threshold = edge.limit threshold := by
  cases times <;> rfl

/-- Counting in one go comes to the same as taking the jump one time after the other. -/
theorem takeTimes_succ :
    edge.takeTimes threshold (times + 1) =
      (edge.takeTimes threshold times).2.take threshold := by
  rw [takeTimes_add_one, coldTakes_add_one]
  by_cases above : edge.limit threshold <
      edge.count + UInt32.ofNat (edge.coldTakes threshold times)
  · have someHot : edge.coldTakes threshold times ≠ times + 1 :=
      Nat.ne_of_lt (Nat.lt_succ_of_le coldTakes_le)
    rw [take_hot (by rwa [limit_takeTimes, count_takeTimes]), limit_takeTimes, count_takeTimes,
      if_pos above, if_neg someHot]
  · have all_cold := coldTakes_of_within above
    rw [take_cold (by rwa [limit_takeTimes, count_takeTimes]), limit_takeTimes, count_takeTimes,
      if_neg above, all_cold, if_pos rfl, UInt32.ofNat_add, UInt32.add_assoc]
    rfl

/-- A take counts as a cold one exactly if it answers cold. -/
theorem cold_takeTimes :
    (if (edge.takeTimes threshold (times + 1)).1 = .cold then
      edge.coldTakes threshold times + 1 else edge.coldTakes threshold times) =
    edge.coldTakes threshold (times + 1) := by
  rw [takeTimes_add_one, coldTakes_add_one]
  by_cases above : edge.limit threshold <
      edge.count + UInt32.ofNat (edge.coldTakes threshold times)
  · have someHot : edge.coldTakes threshold times ≠ times + 1 :=
      Nat.ne_of_lt (Nat.lt_succ_of_le coldTakes_le)
    simp [above, someHot]
  · rw [if_neg above, coldTakes_of_within above, if_pos rfl, if_pos rfl]

end BackEdge

/-! ### Whatever happens to a counter -/

/-- What may happen to a counter. -/
inductive EdgeEvent
  | taken (threshold : UInt32)
  | restarted

/-- The threshold of a take. -/
def EdgeEvent.threshold? : EdgeEvent → Option UInt32
  | .taken threshold => some threshold
  | .restarted => none

/-- A counter with the number of cold takes since it started or last started again. -/
structure Tally where
  edge : BackEdge := {}
  cold : Nat := 0

namespace Tally

def record (tally : Tally) : EdgeEvent → Tally
  | .taken threshold =>
    let (state, edge) := tally.edge.take threshold
    ⟨edge, if state = .cold then tally.cold + 1 else tally.cold⟩
  | .restarted => ⟨tally.edge.reset, 0⟩

theorem record_taken (tally : Tally) (threshold : UInt32) :
    tally.record (.taken threshold) =
      ⟨(tally.edge.take threshold).2,
        if (tally.edge.take threshold).1 = .cold then tally.cold + 1 else tally.cold⟩ := rfl

/-- The tally of a new counter after everything in a list has happened to it. -/
def after (events : List EdgeEvent) : Tally := events.foldl record {}

/--
How a counter stands to its tally, `first` being the threshold of the first take. A tally
of takes under a threshold that can be passed stays at most one above that threshold.
-/
structure Fits (tally : Tally) (first : Option UInt32) : Prop where
  latched : tally.edge.latched = first
  count : tally.edge.count.toNat = tally.cold % 2 ^ 32
  fresh : first = none → tally.cold = 0
  bounded : ∀ limit, first = some limit → limit.toNat < 2 ^ 32 - 1 →
    tally.cold ≤ limit.toNat + 1

variable {tally : Tally} {first : Option UInt32}

theorem Fits.limit (fits : tally.Fits first) (threshold : UInt32) :
    tally.edge.limit threshold = first.getD threshold := by
  rw [BackEdge.limit, fits.latched]

/-- Under a threshold that can be passed the counter is the tally itself. -/
theorem Fits.count_eq (fits : tally.Fits first) {threshold : UInt32}
    (below : (first.getD threshold).toNat < 2 ^ 32 - 1) :
    tally.cold ≤ (first.getD threshold).toNat + 1 ∧ tally.edge.count.toNat = tally.cold := by
  have bounded : tally.cold ≤ (first.getD threshold).toNat + 1 := by
    cases first with
    | none => rw [fits.fresh rfl]; exact Nat.zero_le _
    | some limit => exact fits.bounded limit rfl below
  refine ⟨bounded, ?_⟩
  rw [fits.count, Nat.mod_eq_of_lt]
  omega

theorem Fits.record (fits : tally.Fits first) (event : EdgeEvent) :
    (tally.record event).Fits (first.or event.threshold?) := by
  cases event with
  | restarted =>
    refine ⟨?_, rfl, fun _ => rfl, fun _ _ _ => Nat.zero_le _⟩
    simpa [Tally.record, BackEdge.reset, EdgeEvent.threshold?] using fits.latched
  | taken threshold =>
    have now : first.or (some threshold) = some (first.getD threshold) := by
      cases first <;> rfl
    rw [EdgeEvent.threshold?, now]
    have limit := fits.limit threshold
    by_cases above : tally.edge.limit threshold < tally.edge.count
    · -- A hot take changes neither the counter nor the tally, and had a first take before it.
      have recorded : tally.record (.taken threshold) =
          ⟨⟨tally.edge.count, some (first.getD threshold)⟩, tally.cold⟩ := by
        simp [Tally.record, BackEdge.take_hot above, limit]
      rw [recorded]
      refine ⟨rfl, fits.count, by simp, fun _ same below => ?_⟩
      obtain rfl := Option.some.inj same
      exact (fits.count_eq below).1
    · have recorded : tally.record (.taken threshold) =
          ⟨⟨tally.edge.count + 1, some (first.getD threshold)⟩, tally.cold + 1⟩ := by
        simp [Tally.record, BackEdge.take_cold above, limit]
      rw [recorded]
      refine ⟨rfl, ?_, by simp, fun _ same below => ?_⟩
      · show (tally.edge.count + 1).toNat = _
        rw [UInt32.toNat_add, fits.count]
        exact Nat.mod_add_mod tally.cold (2 ^ 32) 1
      · obtain rfl := Option.some.inj same
        rw [limit, UInt32.lt_iff_toNat_lt, (fits.count_eq below).2] at above
        show tally.cold + 1 ≤ _
        omega

theorem fits_after (events : List EdgeEvent) :
    (after events).Fits (events.findSome? EdgeEvent.threshold?) := by
  induction events using List.reverseRecOn with
  | nil => exact ⟨rfl, rfl, fun _ => rfl, fun _ _ _ => Nat.zero_le _⟩
  | append_singleton events event inductionHypothesis =>
    rw [after, List.foldl_concat, List.findSome?_append, List.findSome?_singleton]
    exact inductionHypothesis.record event

/-- Taking a new counter many times in one go is the same as one take after the other. -/
theorem after_replicate (threshold : UInt32) (times : Nat) :
    after (List.replicate times (.taken threshold)) =
      ⟨((({} : BackEdge).takeTimes threshold times)).2,
        ({} : BackEdge).coldTakes threshold times⟩ := by
  induction times with
  | zero => simp [after, BackEdge.takeTimes, Nat.le_zero.mp BackEdge.coldTakes_le]
  | succ times inductionHypothesis =>
    have last : after (List.replicate (times + 1) (.taken threshold)) =
        (after (List.replicate times (.taken threshold))).record (.taken threshold) := by
      rw [List.replicate_succ', after, List.foldl_concat]
      rfl
    rw [last, inductionHypothesis, record_taken, ← BackEdge.takeTimes_succ,
      BackEdge.cold_takeTimes]

end Tally

/--
What a counter does after any takes and restarts. The threshold of the first take decides for
ever, and a hot take leaves the counter alone. The counter is the number of cold takes since
the last restart, modulo the range of its word. Under any threshold but the greatest that is
the number itself, at most one above the threshold, and the next take is hot exactly if the
number has passed the threshold; under the greatest threshold it never is.
-/
theorem counter_counts_cold_takes (events : List EdgeEvent) (threshold : UInt32) :
    let tally := Tally.after events
    let limit := (events.findSome? EdgeEvent.threshold?).getD threshold
    let next := tally.edge.take threshold
    tally.edge.latched = events.findSome? EdgeEvent.threshold? ∧
      next.2.latched = some limit ∧
      (next.1 = .hot → next.2.count = tally.edge.count) ∧
      tally.edge.count.toNat = tally.cold % 2 ^ 32 ∧
      (limit.toNat < 2 ^ 32 - 1 →
        tally.edge.count.toNat = tally.cold ∧ tally.cold ≤ limit.toNat + 1 ∧
          (next.1 = .hot ↔ limit.toNat < tally.cold)) ∧
      (limit.toNat = 2 ^ 32 - 1 → next.1 = .cold) := by
  intro tally limit next
  have fits : tally.Fits (events.findSome? EdgeEvent.threshold?) := Tally.fits_after events
  have decided : tally.edge.limit threshold = limit := fits.limit threshold
  have hot : next.1 = .hot ↔ limit.toNat < tally.edge.count.toNat := by
    rw [← decided]
    exact BackEdge.take_hot_iff
  refine ⟨fits.latched, ?_, BackEdge.count_take_of_hot, fits.count, ?_, ?_⟩
  · rw [← decided]
    exact BackEdge.latched_take
  · intro below
    obtain ⟨bounded, count⟩ := fits.count_eq below
    exact ⟨count, bounded, by rw [hot, count]⟩
  · intro greatest
    cases state : next.1 with
    | cold => rfl
    | hot =>
      have small := tally.edge.count.toNat_lt
      have passed := hot.mp state
      omega

/-- The greatest threshold is passed by one cold take after the other, and the next take is
cold again; the counter has come round to zero. -/
theorem greatest_threshold_wraps :
    let greatest := UInt32.ofNat (UInt32.size - 1)
    let tally := Tally.after (List.replicate (2 ^ 32) (.taken greatest))
    tally.cold = 2 ^ 32 ∧ greatest.toNat < tally.cold ∧ tally.edge.count = 0 ∧
      (tally.edge.take greatest).1 = .cold := by
  intro greatest tally
  have counted : tally = ⟨(({} : BackEdge).takeTimes greatest (2 ^ 32)).2, 2 ^ 32⟩ :=
    Tally.after_replicate greatest (2 ^ 32)
  rw [counted]
  exact ⟨rfl, by decide, by decide, by decide⟩

end ObjectMachine
