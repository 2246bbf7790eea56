/-
This file proves that the analysis of the operand stack is exact. Control follows paths
from the start of the code: an instruction that finds its values lets control fall through
to the next one, unless it ends there, and lets it jump to its target, if it has one. The
analysis succeeds exactly when no path goes wrong and all paths that meet agree on the
depth, whatever order it takes the offsets in; then it has recorded the offsets that paths
come to and no others. One half is that everything recorded lies on a path, the other that
recorded offsets are settled, so that no path ever leaves them. Nothing bounds the number
of its turns from outside: each one makes the cost of what is left smaller.
-/

import ObjectMachine.Bytecode.Assembler
import ObjectMachine.Proofs.StackAnalysis

namespace ObjectMachine

/-! ### Paths -/

/-- Control can come to an offset, with a depth of the operand stack. -/
inductive Reached (code : Array UInt8) (arityOf : UInt8 → Nat) : Nat → Nat → Prop
  | start : Reached code arityOf 0 0
  | falls {offset depth length : Nat} {instruction : Instruction}
    (reached : Reached code arityOf offset depth)
    (decoded : decodeAt code offset = .ok (instruction, length))
    (enough : (instruction.stackEffect arityOf).required ≤ depth)
    (falls : instruction.endsBlock = false) :
    Reached code arityOf (offset + length) ((instruction.stackEffect arityOf).after depth)
  | jumps {offset depth length target : Nat} {instruction : Instruction}
    (reached : Reached code arityOf offset depth)
    (decoded : decodeAt code offset = .ok (instruction, length))
    (enough : (instruction.stackEffect arityOf).required ≤ depth)
    (jumps : instruction.jumpTarget? offset = some target) :
    Reached code arityOf target
      (instruction.depthAtTarget ((instruction.stackEffect arityOf).after depth))

/-- A backward jump that is longer than the code in front of it. -/
def Instruction.JumpsBeforeStart (instruction : Instruction) (offset : Nat) : Prop :=
  ∃ distance, instruction = .jumpBackward distance ∧ offset < distance.toNat

/-- No path goes wrong, and paths that meet have the same depth. -/
structure WellBehaved (code : Array UInt8) (arityOf : UInt8 → Nat) : Prop where
  decodes : ∀ offset depth, Reached code arityOf offset depth →
    ∃ instruction length, decodeAt code offset = .ok (instruction, length)
  enough : ∀ offset depth instruction length, Reached code arityOf offset depth →
    decodeAt code offset = .ok (instruction, length) →
      (instruction.stackEffect arityOf).required ≤ depth
  /-- No path leaves the code at its end. -/
  inside : ∀ offset depth, Reached code arityOf offset depth → offset < code.size
  /-- No path leaves the code at its start. -/
  afterStart : ∀ offset depth instruction length, Reached code arityOf offset depth →
    decodeAt code offset = .ok (instruction, length) → ¬instruction.JumpsBeforeStart offset
  agree : ∀ offset first second, Reached code arityOf offset first →
    Reached code arityOf offset second → first = second

/-- The stack is that deep before or after an instruction on a path. -/
def Occurs (code : Array UInt8) (arityOf : UInt8 → Nat) (depth : Nat) : Prop :=
  ∃ offset before instruction length, Reached code arityOf offset before ∧
    decodeAt code offset = .ok (instruction, length) ∧
      (depth = before ∨ depth = (instruction.stackEffect arityOf).after before)

/-! ### Edges are what paths take -/

namespace Instruction

variable {instruction : Instruction} {offset next depth : Nat} {edges : List Edge} {edge : Edge}

theorem jumpTarget?_jumpBackward_eq_none {distance : UInt16} :
    (jumpBackward distance).jumpTarget? offset = none ↔ offset < distance.toNat := by
  simp [jumpTarget?]

/-- Only a jump before the start has no edges. -/
theorem edges?_eq_none_iff :
    instruction.edges? offset next depth = none ↔ instruction.JumpsBeforeStart offset := by
  cases instruction with
  | jumpBackward distance =>
    rw [edges?_jumpBackward, Option.map_eq_none_iff, jumpTarget?_jumpBackward_eq_none]
    constructor
    · intro before
      exact ⟨distance, rfl, before⟩
    · rintro ⟨other, same, before⟩
      cases same
      exact before
  | _ =>
    constructor
    · intro none
      cases none
    · rintro ⟨distance, same, -⟩
      cases same

/-- Every edge falls through or goes to the target of the jump. -/
theorem of_mem_edges (ways : instruction.edges? offset next depth = some edges)
    (member : edge ∈ edges) :
    instruction.endsBlock = false ∧ edge = ⟨next, depth⟩ ∨
      ∃ target, instruction.jumpTarget? offset = some target ∧
        edge = ⟨target, instruction.depthAtTarget depth⟩ := by
  cases instruction with
  | halt | returnLocal | returnNonLocal | returnSelf | returnField =>
    cases ways
    cases member
  | jump distance =>
    cases ways
    exact .inr ⟨_, rfl, List.mem_singleton.mp member⟩
  | jumpBackward distance =>
    rw [edges?_jumpBackward] at ways
    obtain ⟨target, jumps, same⟩ := Option.map_eq_some_iff.mp ways
    subst same
    exact .inr ⟨target, jumps, List.mem_singleton.mp member⟩
  | jumpOnTrueTopNil | jumpOnFalseTopNil | jumpOnTruePop | jumpOnFalsePop | jumpIfGreater =>
    cases ways
    rcases List.mem_cons.mp member with rfl | taken
    · exact .inl ⟨rfl, rfl⟩
    · exact .inr ⟨_, rfl, List.mem_singleton.mp taken⟩
  | _ =>
    cases ways
    exact .inl ⟨rfl, List.mem_singleton.mp member⟩

end Instruction

section

variable {code : Array UInt8} {arityOf : UInt8 → Nat} {offset depth length : Nat}
  {instruction : Instruction} {edges : List Edge}

theorem Reached.edge (reached : Reached code arityOf offset depth)
    (decoded : decodeAt code offset = .ok (instruction, length))
    (enough : (instruction.stackEffect arityOf).required ≤ depth)
    (ways : instruction.edges? offset (offset + length)
      ((instruction.stackEffect arityOf).after depth) = some edges)
    {edge : Edge} (member : edge ∈ edges) : Reached code arityOf edge.target edge.depth := by
  rcases Instruction.of_mem_edges ways member with ⟨falls, rfl⟩ | ⟨target, jumps, rfl⟩
  · exact .falls reached decoded enough falls
  · exact .jumps reached decoded enough jumps

end

namespace StackDepths

/-! ### The loop without a bound -/

section

variable (code : Array UInt8) (arityOf : UInt8 → Nat)

/-- What visiting pending offsets comes to, however many visits it takes. -/
inductive Explored : Progress → Except StackFault StackDepths → Prop
  | done (depths : StackDepths) : Explored ⟨depths, []⟩ (.ok depths)
  | skip {depths : StackDepths} {offset : Nat} {rest : List Nat}
    {result : Except StackFault StackDepths} (unrecorded : depths.before? offset = none)
    (onward : Explored ⟨depths, rest⟩ result) : Explored ⟨depths, offset :: rest⟩ result
  | fails {depths : StackDepths} {offset depth : Nat} {rest : List Nat} {fault : StackFault}
    (recorded : depths.before? offset = some depth)
    (visited : visit code arityOf ⟨depths, rest⟩ offset depth = .error fault) :
    Explored ⟨depths, offset :: rest⟩ (.error fault)
  | visits {depths : StackDepths} {offset depth : Nat} {rest : List Nat} {next : Progress}
    {result : Except StackFault StackDepths} (recorded : depths.before? offset = some depth)
    (visited : visit code arityOf ⟨depths, rest⟩ offset depth = .ok next)
    (onward : Explored next result) : Explored ⟨depths, offset :: rest⟩ result

end

/-- Where the analysis begins: at the start of the code, if there is any. -/
def Progress.start (code : Array UInt8) : Progress :=
  let unknown := Array.replicate code.size none
  if code.isEmpty then ⟨⟨unknown, 0⟩, []⟩
  else ⟨⟨unknown.setIfInBounds 0 (some 0), 0⟩, [0]⟩

section

variable {code : Array UInt8} {arityOf : UInt8 → Nat}

/-- With room for the cost of what is left, the bound on the visits is never met. -/
theorem explored_explore {room : Nat} {progress : Progress} (enough : progress.cost ≤ room)
    (size : progress.depths.before.size = code.size) :
    Explored code arityOf progress (explore code arityOf room progress) := by
  induction room generalizing progress with
  | zero =>
    obtain ⟨depths, pending⟩ := progress
    have none : pending = [] := by
      rw [← List.length_eq_zero_iff]
      simp only [Progress.cost] at enough
      omega
    subst none
    exact .done depths
  | succ room inductionHypothesis =>
    obtain ⟨depths, pending⟩ := progress
    cases pending with
    | nil => exact .done depths
    | cons offset rest =>
      simp only [Progress.cost, List.length_cons] at enough
      rw [explore]
      dsimp only
      cases recorded : depths.before? offset with
      | none =>
        refine .skip recorded (inductionHypothesis ?_ size)
        simp only [Progress.cost]
        omega
      | some depth =>
        dsimp only
        cases visited : visit code arityOf ⟨depths, rest⟩ offset depth with
        | error fault => exact .fails recorded visited
        | ok next =>
          obtain ⟨grows, -⟩ := visit_spec (by exact size) visited
          have cheaper := grows.cost
          simp only [Progress.cost] at cheaper
          refine .visits recorded visited (inductionHypothesis ?_ (grows.extend.size.trans size))
          simp only [Progress.cost]
          omega

theorem Progress.size_start (code : Array UInt8) :
    (Progress.start code).depths.before.size = code.size := by
  unfold start
  split <;> simp

theorem Progress.cost_start_le (code : Array UInt8) : (start code).cost ≤ code.size + 1 := by
  have bound : (start code).depths.before.countP Option.isNone ≤ code.size :=
    size_start code ▸ Array.countP_le_size
  have pending : (start code).pending.length ≤ 1 := by
    unfold start
    split <;> simp
  rw [cost]
  omega

/-- The analysis ends on every code, with what its loop comes to. -/
theorem explored_analyze (code : Array UInt8) (arityOf : UInt8 → Nat) :
    Explored code arityOf (.start code) (analyze code arityOf) := by
  by_cases empty : code.isEmpty
  · rw [analyze, Progress.start]
    simp only [empty, if_true]
    exact .done _
  · have ends : Explored code arityOf (.start code)
        (explore code arityOf (code.size + 1) (.start code)) :=
      explored_explore (Progress.cost_start_le code) (Progress.size_start code)
    rw [Progress.start, if_neg empty] at ends ⊢
    rw [analyze, if_neg empty]
    exact ends

/-! ### What is recorded lies on a path -/

/-- Depths that paths have, the maximum among them. -/
structure OnPaths (code : Array UInt8) (arityOf : UInt8 → Nat) (depths : StackDepths) : Prop where
  size : depths.before.size = code.size
  reached : ∀ offset depth, depths.before? offset = some depth →
    Reached code arityOf offset depth
  maximum : depths.maximum = 0 ∨ Occurs code arityOf depths.maximum

variable {progress found : Progress}

theorem OnPaths.follow (paths : OnPaths code arityOf progress.depths) {offset : Nat} {edge : Edge}
    (reached : Reached code arityOf edge.target edge.depth)
    (followed : follow offset progress edge = .ok found) :
    OnPaths code arityOf found.depths := by
  unfold StackDepths.follow at followed
  split at followed
  · cases followed
  · rename_i outside
    split at followed
    · cases followed
      refine ⟨by simpa using paths.size, fun other depth recorded => ?_, paths.maximum⟩
      have bound : edge.target < progress.depths.before.size := Nat.lt_of_not_le outside
      have recordedNow := before?_set progress.depths.before progress.depths.maximum edge.target
        other edge.depth bound
      rw [recordedNow] at recorded
      split at recorded
      · rename_i same
        cases recorded
        exact same ▸ reached
      · exact paths.reached other depth recorded
    · split at followed
      · cases followed
        exact paths
      · cases followed

theorem OnPaths.followAll (paths : OnPaths code arityOf progress.depths) {offset : Nat}
    {edges : List Edge}
    (reached : ∀ edge ∈ edges, Reached code arityOf edge.target edge.depth)
    (followed : edges.foldlM (StackDepths.follow offset) progress = .ok found) :
    OnPaths code arityOf found.depths := by
  induction edges generalizing progress with
  | nil =>
    cases followed
    exact paths
  | cons edge rest inductionHypothesis =>
    rw [List.foldlM_cons] at followed
    cases first : StackDepths.follow offset progress edge with
    | error fault =>
      rw [first] at followed
      cases followed
    | ok between =>
      rw [first] at followed
      exact inductionHypothesis (paths.follow (reached edge List.mem_cons_self) first)
        (fun other member => reached other (List.mem_cons_of_mem _ member)) followed

/-- A visit enters the depths of its instruction. -/
theorem OnPaths.raise {depths : StackDepths} (paths : OnPaths code arityOf depths)
    {offset depth length : Nat} {instruction : Instruction}
    (reached : Reached code arityOf offset depth)
    (decoded : decodeAt code offset = .ok (instruction, length)) :
    OnPaths code arityOf { depths with
      maximum := max (max depths.maximum ((instruction.stackEffect arityOf).after depth))
        depth } := by
  refine ⟨paths.size, paths.reached, ?_⟩
  dsimp only
  generalize after_eq : (instruction.stackEffect arityOf).after depth = after
  generalize maximum_eq : max (max depths.maximum after) depth = maximum
  have larger : maximum = depths.maximum ∨ maximum = depth ∨ maximum = after := by omega
  rcases larger with same | same
  · exact same ▸ paths.maximum
  · exact .inr ⟨offset, depth, instruction, length, reached, decoded, after_eq ▸ same⟩

theorem OnPaths.visit {depths : StackDepths} {pending : List Nat}
    (paths : OnPaths code arityOf depths) {offset depth : Nat}
    (reached : Reached code arityOf offset depth)
    (visited : visit code arityOf ⟨depths, pending⟩ offset depth = .ok found) :
    OnPaths code arityOf found.depths := by
  unfold StackDepths.visit at visited
  split at visited
  · cases visited
  · rename_i instruction length decoded
    dsimp only at visited
    split at visited
    · cases visited
    · rename_i enough
      split at visited
      · cases visited
      · rename_i edges ways
        exact OnPaths.followAll (paths.raise reached decoded)
          (fun edge member => reached.edge decoded (Nat.le_of_not_lt enough) ways member) visited

theorem OnPaths.explored {result : Except StackFault StackDepths}
    (explored : Explored code arityOf progress result)
    (paths : OnPaths code arityOf progress.depths) {depths : StackDepths}
    (succeeded : result = .ok depths) : OnPaths code arityOf depths := by
  induction explored with
  | done depths =>
    cases succeeded
    exact paths
  | skip unrecorded onward inductionHypothesis => exact inductionHypothesis paths succeeded
  | fails recorded visited => cases succeeded
  | visits recorded visited onward inductionHypothesis =>
    exact inductionHypothesis (paths.visit (paths.reached _ _ recorded) visited) succeeded

theorem onPaths_start (code : Array UInt8) (arityOf : UInt8 → Nat) :
    OnPaths code arityOf (Progress.start code).depths := by
  have blank (offset depth : Nat) :
      before? ⟨Array.replicate code.size none, 0⟩ offset ≠ some depth := by
    simp only [before?, Array.getElem?_replicate]
    split <;> simp
  refine ⟨Progress.size_start code, fun offset depth recorded => ?_, .inl ?_⟩
  · unfold Progress.start at recorded
    split at recorded
    · exact absurd recorded (blank offset depth)
    · rename_i nonempty
      have positive : 0 < (Array.replicate code.size (none : Option Nat)).size := by
        simpa [Nat.pos_iff_ne_zero] using nonempty
      rw [before?_set _ _ _ _ _ positive] at recorded
      split at recorded
      · rename_i start
        cases recorded
        exact start ▸ .start
      · exact absurd recorded (blank offset depth)
  · unfold Progress.start
    split <;> rfl

/-! ### Paths stay among what is recorded -/

/-- No path leaves the recorded offsets, or comes to one with another depth. -/
theorem Sound.recorded {depths : StackDepths} (sound : depths.Sound code arityOf)
    (nonempty : code.size ≠ 0) {offset depth : Nat} (reached : Reached code arityOf offset depth) :
    depths.before? offset = some depth := by
  induction reached with
  | start => exact sound.start nonempty
  | falls reached decoded enough falls recorded =>
    obtain ⟨other, otherLength, edges, decodedToo, -, -, -, ways, arrive⟩ :=
      sound.settled _ _ recorded
    cases decoded.symm.trans decodedToo
    exact (arrive _ (Instruction.edge_of_endsBlock ways falls)).2
  | jumps reached decoded enough jumps recorded =>
    obtain ⟨other, otherLength, edges, decodedToo, -, -, -, ways, arrive⟩ :=
      sound.settled _ _ recorded
    cases decoded.symm.trans decodedToo
    exact (arrive _ (Instruction.edge_of_jumpTarget? ways jumps)).2

theorem Sound.wellBehaved {depths : StackDepths} (sound : depths.Sound code arityOf)
    (size : depths.before.size = code.size) (nonempty : code.size ≠ 0) :
    WellBehaved code arityOf where
  decodes offset depth reached := by
    obtain ⟨instruction, length, edges, decoded, -⟩ :=
      sound.settled _ _ (sound.recorded nonempty reached)
    exact ⟨instruction, length, decoded⟩
  enough offset depth instruction length reached decoded := by
    obtain ⟨other, otherLength, edges, decodedToo, enough, -⟩ :=
      sound.settled _ _ (sound.recorded nonempty reached)
    cases decoded.symm.trans decodedToo
    exact enough
  inside offset depth reached :=
    size ▸ lt_size_of_before? (sound.recorded nonempty reached)
  afterStart offset depth instruction length reached decoded before := by
    obtain ⟨other, otherLength, edges, decodedToo, -, -, -, ways, -⟩ :=
      sound.settled _ _ (sound.recorded nonempty reached)
    cases decoded.symm.trans decodedToo
    rw [Instruction.edges?_eq_none_iff.mpr before] at ways
    cases ways
  agree offset first second reached reachedToo :=
    Option.some.inj ((sound.recorded nonempty reached).symm.trans
      (sound.recorded nonempty reachedToo))

theorem Sound.occurs_le {depths : StackDepths} (sound : depths.Sound code arityOf)
    (nonempty : code.size ≠ 0) {depth : Nat} (occurs : Occurs code arityOf depth) :
    depth ≤ depths.maximum := by
  obtain ⟨offset, before, instruction, length, reached, decoded, same⟩ := occurs
  obtain ⟨other, otherLength, edges, decodedToo, -, within, withinAfter, -, -⟩ :=
    sound.settled _ _ (sound.recorded nonempty reached)
  cases decoded.symm.trans decodedToo
  rcases same with rfl | rfl
  · exact within
  · exact withinAfter

/-! ### Nothing fails where no path goes wrong -/

section

variable (behaved : WellBehaved code arityOf)

include behaved

theorem OnPaths.exists_follow (paths : OnPaths code arityOf progress.depths) (offset : Nat)
    {edge : Edge} (reached : Reached code arityOf edge.target edge.depth) :
    ∃ found, StackDepths.follow offset progress edge = .ok found := by
  have inside : ¬progress.depths.before.size ≤ edge.target := by
    rw [paths.size]
    exact Nat.not_le_of_lt (behaved.inside _ _ reached)
  unfold StackDepths.follow
  rw [if_neg inside]
  cases recorded : progress.depths.before? edge.target with
  | none => exact ⟨_, rfl⟩
  | some seen =>
    have same : seen = edge.depth :=
      behaved.agree _ _ _ (paths.reached _ _ recorded) reached
    exact ⟨_, if_pos same⟩

theorem OnPaths.exists_followAll (paths : OnPaths code arityOf progress.depths) (offset : Nat)
    {edges : List Edge}
    (reached : ∀ edge ∈ edges, Reached code arityOf edge.target edge.depth) :
    ∃ found, edges.foldlM (StackDepths.follow offset) progress = .ok found := by
  induction edges generalizing progress with
  | nil => exact ⟨progress, rfl⟩
  | cons edge rest inductionHypothesis =>
    obtain ⟨between, followed⟩ :=
      paths.exists_follow behaved offset (reached edge List.mem_cons_self)
    rw [List.foldlM_cons, followed]
    exact inductionHypothesis (paths.follow (reached edge List.mem_cons_self) followed)
      fun other member => reached other (List.mem_cons_of_mem _ member)

theorem OnPaths.exists_visit {depths : StackDepths} (paths : OnPaths code arityOf depths)
    (pending : List Nat) {offset depth : Nat} (reached : Reached code arityOf offset depth) :
    ∃ found, StackDepths.visit code arityOf ⟨depths, pending⟩ offset depth = .ok found := by
  obtain ⟨instruction, length, decoded⟩ := behaved.decodes _ _ reached
  have enough := behaved.enough _ _ _ _ reached decoded
  unfold StackDepths.visit
  rw [decoded]
  dsimp only
  rw [if_neg (Nat.not_lt_of_le enough)]
  cases ways : instruction.edges? offset (offset + length)
      (depth - (instruction.stackEffect arityOf).popped +
        (instruction.stackEffect arityOf).pushed) with
  | none =>
    exact absurd (Instruction.edges?_eq_none_iff.mp ways)
      (behaved.afterStart _ _ _ _ reached decoded)
  | some edges =>
    exact OnPaths.exists_followAll behaved (paths.raise reached decoded) offset
      fun edge member => reached.edge decoded enough ways member

theorem OnPaths.succeeds {result : Except StackFault StackDepths}
    (explored : Explored code arityOf progress result)
    (paths : OnPaths code arityOf progress.depths) : ∃ depths, result = .ok depths := by
  induction explored with
  | done depths => exact ⟨depths, rfl⟩
  | skip unrecorded onward inductionHypothesis => exact inductionHypothesis paths
  | fails recorded visited =>
    obtain ⟨found, succeeded⟩ := paths.exists_visit behaved _ (paths.reached _ _ recorded)
    cases visited.symm.trans succeeded
  | visits recorded visited onward inductionHypothesis =>
    exact inductionHypothesis (paths.visit (paths.reached _ _ recorded) visited)

end

end

end StackDepths

/-! ### The analysis is exact -/

/--
The loop of the analysis ends on every code. It succeeds exactly when no path through the
code goes wrong and paths that meet agree; then an offset has a recorded depth exactly when
a path comes to it with that depth, and the maximum is the largest depth before or after an
instruction on a path.
-/
theorem analyze_exact (code : Array UInt8) (arityOf : UInt8 → Nat) :
    StackDepths.Explored code arityOf (.start code) (analyze code arityOf) ∧
      (code.size ≠ 0 →
        ((∃ depths, analyze code arityOf = .ok depths) ↔ WellBehaved code arityOf) ∧
        ∀ depths, analyze code arityOf = .ok depths →
          (∀ offset depth,
            depths.before? offset = some depth ↔ Reached code arityOf offset depth) ∧
          Occurs code arityOf depths.maximum ∧
          ∀ depth, Occurs code arityOf depth → depth ≤ depths.maximum) := by
  have explored := StackDepths.explored_analyze code arityOf
  have begun := StackDepths.onPaths_start code arityOf
  refine ⟨explored, fun nonempty => ⟨⟨?_, ?_⟩, fun depths analyzed => ?_⟩⟩
  · rintro ⟨depths, analyzed⟩
    have paths := begun.explored explored analyzed
    exact (StackDepths.sound_of_analyze analyzed).wellBehaved paths.size nonempty
  · intro behaved
    exact begun.succeeds behaved explored
  · have paths := begun.explored explored analyzed
    have sound := StackDepths.sound_of_analyze analyzed
    refine ⟨fun offset depth => ⟨paths.reached offset depth, sound.recorded nonempty⟩, ?_,
      fun depth => sound.occurs_le nonempty⟩
    rcases paths.maximum with zero | occurs
    · obtain ⟨instruction, length, edges, decoded, -⟩ :=
        sound.settled 0 0 (sound.start nonempty)
      exact ⟨0, 0, instruction, length, .start, decoded, .inl zero⟩
    · exact occurs

/-- A loop around a super send, left with its answer when that is true. -/
def loopingCode : Array UInt8 :=
  ([.pushFrame 0, .pushOne, .superSend 0 .ofSelector, .jumpOnTrueTopNil 6, .jumpBackward 7,
    .returnLocal] : List Instruction).flatMap Instruction.encode |>.toArray

/-- A path leaves the loop with the answer on the stack, and none comes between two instructions. -/
theorem loopingCode_paths :
    loopingCode.size ≠ 0 ∧ WellBehaved loopingCode (fun _ => 2) ∧
      Reached loopingCode (fun _ => 2) 10 1 ∧
      ∀ depth, ¬Reached loopingCode (fun _ => 2) 5 depth := by
  have nonempty : loopingCode.size ≠ 0 := by decide
  obtain ⟨-, exact⟩ := analyze_exact loopingCode (fun _ => 2)
  obtain ⟨succeeds, found⟩ := exact nonempty
  have recorded : (analyze loopingCode (fun _ => 2)).toOption.map
      (fun depths => (depths.before? 10, depths.before? 5)) = some (some 1, none) := by
    decide
  cases analyzed : analyze loopingCode (fun _ => 2) with
  | error fault =>
    rw [analyzed] at recorded
    cases recorded
  | ok depths =>
    rw [analyzed] at recorded
    obtain ⟨leaves, between⟩ := Prod.mk.inj (Option.some.inj recorded)
    obtain ⟨reached, -⟩ := found depths analyzed
    refine ⟨nonempty, succeeds.mp ⟨depths, analyzed⟩, (reached 10 1).mp leaves, ?_⟩
    intro depth comes
    rw [(reached 5 depth).mpr comes] at between
    cases between

end ObjectMachine
