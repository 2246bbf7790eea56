/-
This file says what it means that the analysis of the operand stack succeeds. The
analysis keeps a list of offsets whose edges are still to be followed: an offset gets onto
the list when its depth is recorded, so every recorded offset is pending or settled, and
a settled one stays settled because recorded depths never change. The cost of what is
left, counted in unrecorded and pending offsets, falls with every visit, so the room that
the analysis gives itself is enough to empty the list.
-/

import ObjectMachine.Bytecode.StackDepth

namespace ObjectMachine

/-- The depth that an effect leads to on the path that falls through. -/
def StackEffect.after (effect : StackEffect) (depth : Nat) : Nat :=
  depth - effect.popped + effect.pushed

/-! ### Ways out of an instruction -/

namespace Instruction

/-- The depth at the target of a jump, `depth` being the one that the instruction leaves. -/
def depthAtTarget : Instruction → Nat → Nat
  | .jumpOnTrueTopNil _, depth | .jumpOnFalseTopNil _, depth => depth + 1
  | .jumpIfGreater _, depth => depth - 2
  | _, depth => depth

variable {instruction : Instruction} {offset next depth target : Nat} {edges : List Edge}

theorem edges?_jumpBackward (distance : UInt16) :
    (jumpBackward distance).edges? offset next depth =
      ((jumpBackward distance).jumpTarget? offset).map fun target => [⟨target, depth⟩] := rfl

theorem edge_of_jumpTarget? (ways : instruction.edges? offset next depth = some edges)
    (jumps : instruction.jumpTarget? offset = some target) :
    ⟨target, instruction.depthAtTarget depth⟩ ∈ edges := by
  cases instruction with
  | jump =>
    cases ways
    cases jumps
    exact List.mem_singleton_self _
  | jumpBackward =>
    rw [edges?_jumpBackward, jumps] at ways
    cases ways
    exact List.mem_singleton_self _
  | jumpOnTrueTopNil | jumpOnFalseTopNil | jumpOnTruePop | jumpOnFalsePop | jumpIfGreater =>
    cases ways
    cases jumps
    exact List.mem_cons_of_mem _ (List.mem_singleton_self _)
  | _ => cases jumps

theorem edge_of_endsBlock (ways : instruction.edges? offset next depth = some edges)
    (falls : instruction.endsBlock = false) : ⟨next, depth⟩ ∈ edges := by
  cases instruction with
  | halt | returnLocal | returnNonLocal | returnSelf | returnField | jump | jumpBackward =>
    cases falls
  | _ =>
    cases ways
    exact List.mem_cons_self

end Instruction

namespace StackDepths

/-! ### Settled offsets -/

/--
What is known of an offset once its edges have been followed: an instruction stands there,
finds the values it needs, stays below the maximum, and each way out of it arrives inside
the code with the depth recorded there.
-/
inductive Settled (code : Array UInt8) (arityOf : UInt8 → Nat) (depths : StackDepths)
    (offset depth : Nat) : Prop
  | intro (instruction : Instruction) (length : Nat) (edges : List Edge)
    (decoded : decodeAt code offset = .ok (instruction, length))
    (enough : (instruction.stackEffect arityOf).required ≤ depth)
    (within : depth ≤ depths.maximum)
    (withinAfter : (instruction.stackEffect arityOf).after depth ≤ depths.maximum)
    (ways : instruction.edges? offset (offset + length)
      ((instruction.stackEffect arityOf).after depth) = some edges)
    (arrive : ∀ edge ∈ edges,
      edge.target < code.size ∧ depths.before? edge.target = some edge.depth)

/-- Every recorded offset is settled, and the start is recorded if there is any code. -/
structure Sound (code : Array UInt8) (arityOf : UInt8 → Nat) (depths : StackDepths) : Prop where
  start : code.size ≠ 0 → depths.before? 0 = some 0
  settled : ∀ offset depth, depths.before? offset = some depth →
    Settled code arityOf depths offset depth

/-- Nothing recorded is lost or changed. -/
structure Extends (old new : StackDepths) : Prop where
  size : new.before.size = old.before.size
  kept : ∀ offset depth, old.before? offset = some depth → new.before? offset = some depth
  maximum : old.maximum ≤ new.maximum

theorem Extends.refl (depths : StackDepths) : Extends depths depths :=
  ⟨rfl, fun _ _ recorded => recorded, Nat.le_refl _⟩

theorem Extends.trans {first second third : StackDepths} (left : Extends first second)
    (right : Extends second third) : Extends first third :=
  ⟨right.size.trans left.size,
    fun offset depth recorded => right.kept offset depth (left.kept offset depth recorded),
    Nat.le_trans left.maximum right.maximum⟩

theorem Settled.extend {code : Array UInt8} {arityOf : UInt8 → Nat} {old new : StackDepths}
    {offset depth : Nat} (settled : Settled code arityOf old offset depth)
    (step : Extends old new) : Settled code arityOf new offset depth := by
  obtain ⟨instruction, length, edges, decoded, enough, within, withinAfter, ways, arrive⟩ := settled
  refine ⟨instruction, length, edges, decoded, enough, Nat.le_trans within step.maximum,
    Nat.le_trans withinAfter step.maximum, ways, fun edge member => ?_⟩
  exact ⟨(arrive edge member).1, step.kept _ _ (arrive edge member).2⟩

theorem lt_size_of_before? {depths : StackDepths} {offset depth : Nat}
    (recorded : depths.before? offset = some depth) : offset < depths.before.size := by
  rw [before?] at recorded
  by_cases inside : offset < depths.before.size
  · exact inside
  · rw [Array.getElem?_eq_none (Nat.le_of_not_lt inside)] at recorded
    cases recorded

theorem before?_set (before : Array (Option Nat)) (maximum target other depth : Nat)
    (inside : target < before.size) :
    before? ⟨before.setIfInBounds target (some depth), maximum⟩ other =
      if target = other then some depth else before? ⟨before, maximum⟩ other := by
  simp only [before?, Array.getElem?_setIfInBounds]
  split <;> rfl

/-! ### Progress of the analysis -/

namespace Progress

/-- What is left to do: an offset is unrecorded, then pending, then neither. -/
def cost (progress : Progress) : Nat :=
  progress.depths.before.countP Option.isNone + progress.pending.length

/-- One part of the analysis after another. -/
structure Grows (old new : Progress) : Prop where
  extend : old.depths.Extends new.depths
  queued : ∀ offset depth, new.depths.before? offset = some depth →
    old.depths.before? offset = some depth ∨ offset ∈ new.pending
  pending : ∀ offset ∈ old.pending, offset ∈ new.pending
  cost : new.cost ≤ old.cost

theorem Grows.refl (progress : Progress) : Grows progress progress :=
  ⟨.refl _, fun _ _ recorded => .inl recorded, fun _ member => member, Nat.le_refl _⟩

theorem Grows.trans {first second third : Progress} (left : Grows first second)
    (right : Grows second third) : Grows first third := by
  refine ⟨left.extend.trans right.extend, fun offset depth recorded => ?_,
    fun offset member => right.pending offset (left.pending offset member),
    Nat.le_trans right.cost left.cost⟩
  rcases right.queued offset depth recorded with recorded | member
  · rcases left.queued offset depth recorded with recorded | member
    · exact .inl recorded
    · exact .inr (right.pending offset member)
  · exact .inr member

end Progress

section

variable {code : Array UInt8} {arityOf : UInt8 → Nat} {progress found : Progress}

/-- Following an edge records the depth at its target. -/
theorem follow_spec {offset : Nat} {edge : Edge}
    (followed : follow offset progress edge = .ok found) :
    progress.Grows found ∧ edge.target < found.depths.before.size ∧
      found.depths.before? edge.target = some edge.depth := by
  unfold follow at followed
  split at followed
  · cases followed
  · rename_i outside
    have inside : edge.target < progress.depths.before.size := Nat.lt_of_not_le outside
    split at followed
    · rename_i unrecorded
      cases followed
      have recordedNow (other : Nat) :
          before? ⟨progress.depths.before.setIfInBounds edge.target (some edge.depth),
            progress.depths.maximum⟩ other =
          if edge.target = other then some edge.depth else progress.depths.before? other :=
        before?_set _ _ _ _ _ inside
      refine ⟨⟨⟨by simp, fun other depth recorded => ?_, Nat.le_refl _⟩,
        fun other depth recorded => ?_, fun other member => List.mem_cons_of_mem _ member, ?_⟩,
        by simpa using inside, by rw [recordedNow, if_pos rfl]⟩
      · rw [recordedNow, if_neg ?_]
        · exact recorded
        · rintro rfl
          rw [unrecorded] at recorded
          cases recorded
      · rw [recordedNow] at recorded
        split at recorded
        · rename_i same
          exact .inr (same ▸ List.mem_cons_self)
        · exact .inl recorded
      · have empty : progress.depths.before[edge.target] = none := by
          rw [before?, Array.getElem?_eq_getElem inside] at unrecorded
          exact unrecorded
        have counted : 0 < progress.depths.before.countP Option.isNone :=
          Array.countP_pos_iff.mpr ⟨_, Array.getElem_mem inside, by rw [empty]; rfl⟩
        simp only [Progress.cost, Array.setIfInBounds, dif_pos inside, Array.countP_set, empty,
          List.length_cons, Option.isNone_none, Option.isNone_some, if_true]
        simp only [Bool.false_eq_true, if_false]
        omega
    · rename_i seen recorded
      split at followed
      · rename_i same
        cases followed
        exact ⟨.refl _, inside, same ▸ recorded⟩
      · cases followed

theorem follow_all_spec {offset : Nat} {edges : List Edge}
    (followed : edges.foldlM (follow offset) progress = .ok found) :
    progress.Grows found ∧ ∀ edge ∈ edges, edge.target < found.depths.before.size ∧
      found.depths.before? edge.target = some edge.depth := by
  induction edges generalizing progress with
  | nil =>
    cases followed
    exact ⟨.refl _, fun edge member => by cases member⟩
  | cons edge rest inductionHypothesis =>
    rw [List.foldlM_cons] at followed
    cases first : follow offset progress edge with
    | error fault =>
      rw [first] at followed
      cases followed
    | ok between =>
      rw [first] at followed
      obtain ⟨grows, inside, recorded⟩ := follow_spec first
      obtain ⟨growsOn, arrive⟩ := inductionHypothesis followed
      refine ⟨grows.trans growsOn, fun other member => ?_⟩
      rcases List.mem_cons.mp member with rfl | member
      · exact ⟨growsOn.extend.size ▸ inside, growsOn.extend.kept _ _ recorded⟩
      · exact arrive other member

/-- A visit settles its offset. -/
theorem visit_spec {offset depth : Nat} (size : progress.depths.before.size = code.size)
    (visited : visit code arityOf progress offset depth = .ok found) :
    progress.Grows found ∧ Settled code arityOf found.depths offset depth := by
  unfold visit at visited
  split at visited
  · cases visited
  · rename_i instruction length decoded
    dsimp only at visited
    split at visited
    · cases visited
    · rename_i enough
      split at visited
      · cases visited
      · rename_i edges ways
        obtain ⟨grows, arrive⟩ := follow_all_spec visited
        have raised := grows.extend.maximum
        simp only at raised
        refine ⟨⟨⟨grows.extend.size, grows.extend.kept, by omega⟩, grows.queued, grows.pending,
          grows.cost⟩, ?_⟩
        refine ⟨instruction, length, edges, decoded, Nat.le_of_not_lt enough, by omega,
          by rw [StackEffect.after]; omega, ways, fun edge member => ?_⟩
        have sizes : found.depths.before.size = code.size := grows.extend.size.trans size
        exact ⟨sizes ▸ (arrive edge member).1, (arrive edge member).2⟩

/-- With room for what is left, every recorded offset ends up settled. -/
theorem explore_spec {room : Nat} {depths : StackDepths} (enough : progress.cost ≤ room)
    (size : progress.depths.before.size = code.size)
    (known : ∀ offset depth, progress.depths.before? offset = some depth →
      offset ∈ progress.pending ∨ Settled code arityOf progress.depths offset depth)
    (explored : explore code arityOf room progress = .ok depths) :
    progress.depths.Extends depths ∧ ∀ offset depth, depths.before? offset = some depth →
      Settled code arityOf depths offset depth := by
  induction room generalizing progress with
  | zero =>
    cases explored
    have none : progress.pending = [] := by
      rw [← List.length_eq_zero_iff]
      simp only [Progress.cost] at enough
      omega
    refine ⟨.refl _, fun offset depth recorded => ?_⟩
    rcases known offset depth recorded with member | settled
    · rw [none] at member
      cases member
    · exact settled
  | succ room inductionHypothesis =>
    rw [explore] at explored
    split at explored
    · rename_i none
      cases explored
      refine ⟨.refl _, fun offset depth recorded => ?_⟩
      rcases known offset depth recorded with member | settled
      · rw [none] at member
        cases member
      · exact settled
    · rename_i offset rest pending
      simp only [Progress.cost, pending, List.length_cons] at enough
      split at explored
      · rename_i unrecorded
        refine @inductionHypothesis ⟨progress.depths, rest⟩
          (by simp only [Progress.cost]; omega) size (fun other depth recorded => ?_) explored
        rcases known other depth recorded with member | settled
        · rw [pending] at member
          rcases List.mem_cons.mp member with rfl | member
          · rw [unrecorded] at recorded
            cases recorded
          · exact .inl member
        · exact .inr settled
      · rename_i depth recordedHere
        split at explored
        · cases explored
        · rename_i next visited
          obtain ⟨grows, settledHere⟩ := visit_spec (by exact size) visited
          have cheaper := grows.cost
          simp only [Progress.cost] at cheaper
          have knownNext (other otherDepth : Nat)
              (recorded : next.depths.before? other = some otherDepth) :
              other ∈ next.pending ∨ Settled code arityOf next.depths other otherDepth := by
            rcases grows.queued other otherDepth recorded with before | member
            · rcases known other otherDepth before with member | settled
              · rw [pending] at member
                rcases List.mem_cons.mp member with rfl | member
                · rw [grows.extend.kept _ _ recordedHere] at recorded
                  cases recorded
                  exact .inr settledHere
                · exact .inl (grows.pending other member)
              · exact .inr (settled.extend grows.extend)
            · exact .inl member
          obtain ⟨extend, settledAll⟩ := inductionHypothesis
            (by simp only [Progress.cost]; omega) (grows.extend.size.trans size) knownNext explored
          exact ⟨grows.extend.trans extend, settledAll⟩

end

end StackDepths

/-! ### The analysis -/

/-- A successful analysis is right about every offset that it recorded. -/
theorem StackDepths.sound_of_analyze {code : Array UInt8} {arityOf : UInt8 → Nat}
    {depths : StackDepths} (analyzed : analyze code arityOf = .ok depths) :
    depths.Sound code arityOf := by
  unfold analyze at analyzed
  dsimp only at analyzed
  split at analyzed
  · rename_i empty
    cases analyzed
    refine ⟨fun nonempty => absurd (by simpa using empty) nonempty, fun offset depth recorded => ?_⟩
    have inside := lt_size_of_before? recorded
    simp_all
  · rename_i nonempty
    have positive : 0 < code.size := by
      simp only [Array.isEmpty_iff_size_eq_zero] at nonempty
      omega
    have inside : 0 < (Array.replicate code.size (none : Option Nat)).size := by
      simpa using positive
    have recordedNow (other : Nat) :
        before? ⟨(Array.replicate code.size none).setIfInBounds 0 (some 0), 0⟩ other =
          if 0 = other then some 0 else none := by
      rw [before?_set _ _ _ _ _ inside]
      congr 1
      simp only [before?, Array.getElem?_replicate]
      split <;> rfl
    have cost : Progress.cost
        ⟨⟨(Array.replicate code.size none).setIfInBounds 0 (some 0), 0⟩, [0]⟩ ≤ code.size + 1 := by
      simp only [Progress.cost, List.length_cons, List.length_nil]
      have counted : ((Array.replicate code.size (none : Option Nat)).setIfInBounds 0
          (some 0)).countP Option.isNone ≤ _ := Array.countP_le_size
      simp only [Array.size_setIfInBounds, Array.size_replicate] at counted
      omega
    obtain ⟨extend, settled⟩ := explore_spec cost (by simp)
      (fun offset depth recorded => by
        rw [recordedNow] at recorded
        split at recorded
        · rename_i start
          exact .inl (by simp [← start])
        · cases recorded) analyzed
    exact ⟨fun _ => extend.kept _ _ (by rw [recordedNow, if_pos rfl]), settled⟩

end ObjectMachine
