/-
This file shows that threading and the analysis of the operand stack see the same control flow.
Threading takes the fall-through first and keeps the targets of conditional jumps on an
interned list; read off the pool, that list is an agenda of offsets, whatever the pool held
before. Every offset on the agenda can be come to, and the ways out of every offset that has a
node lead to offsets that have one or are on the agenda, so that an empty agenda leaves just
the offsets that can be come to. A patched site leads where the encoded instruction does, and
so none of this depends on what has been patched. Each turn makes the agenda or the number of
offsets without a node smaller, and the turns are never used up.
-/

import ObjectMachine.Proofs.Acceptance
import ObjectMachine.Proofs.ControlPaths
import ObjectMachine.Proofs.StackSafety

namespace ObjectMachine

/-! ### Control flow -/

/-- The offsets that control goes on at after an instruction. -/
def Instruction.successors (instruction : Instruction) (offset next : Nat) : List Nat :=
  (if instruction.endsBlock then [] else [next]) ++ (instruction.jumpTarget? offset).toList

/-- Falling through and jumping lead to an offset, be it inside the code or not. -/
inductive Led (fetch : Nat → Except DecodeError (Instruction × Nat)) : Nat → Prop
  | start : Led fetch 0
  | falls {offset length : Nat} {instruction : Instruction} (led : Led fetch offset)
    (fetched : fetch offset = .ok (instruction, length)) (falls : instruction.endsBlock = false) :
    Led fetch (offset + length)
  | jumps {offset length target : Nat} {instruction : Instruction} (led : Led fetch offset)
    (fetched : fetch offset = .ok (instruction, length))
    (jumps : instruction.jumpTarget? offset = some target) : Led fetch target

section

variable {fetch other : Nat → Except DecodeError (Instruction × Nat)}
  {instruction : Instruction} {offset next length target : Nat}

theorem Instruction.mem_successors :
    target ∈ instruction.successors offset next ↔
      instruction.endsBlock = false ∧ target = next ∨
        instruction.jumpTarget? offset = some target := by
  unfold successors
  cases instruction.endsBlock <;> simp

theorem Instruction.length_successors_le (instruction : Instruction) (offset next : Nat) :
    (instruction.successors offset next).length ≤ 2 := by
  unfold successors
  cases instruction.endsBlock <;> cases instruction.jumpTarget? offset <;> simp

theorem Led.successor (led : Led fetch offset) (fetched : fetch offset = .ok (instruction, length))
    (member : target ∈ instruction.successors offset (offset + length)) : Led fetch target := by
  rcases Instruction.mem_successors.mp member with ⟨falls, rfl⟩ | jumps
  · exact .falls led fetched falls
  · exact .jumps led fetched jumps

/-- Instructions with the same ways out lead to the same offsets. -/
theorem Led.congr (led : Led fetch offset)
    (alike : ∀ offset instruction length, fetch offset = .ok (instruction, length) →
      ∃ standing, other offset = .ok (standing, length) ∧
        standing.endsBlock = instruction.endsBlock ∧
          standing.jumpTarget? offset = instruction.jumpTarget? offset) : Led other offset := by
  induction led with
  | start => exact .start
  | falls _ fetched falls led =>
    obtain ⟨standing, fetchedToo, sameEnd, -⟩ := alike _ _ _ fetched
    exact .falls led fetchedToo (sameEnd.trans falls)
  | jumps _ fetched jumps led =>
    obtain ⟨standing, fetchedToo, -, sameTarget⟩ := alike _ _ _ fetched
    exact .jumps led fetchedToo (sameTarget.trans jumps)

end

/-! ### Pending lists as lists -/

/-- The offsets of a list of the pool. -/
inductive ContinuationPool.Spells (pool : ContinuationPool) : ContinuationList → List Nat → Prop
  | empty : Spells pool .empty []
  | cons {list rest : ContinuationList} {offset : Nat} {offsets : List Nat}
    (popped : pool.pop? list = some (offset, rest)) (spells : Spells pool rest offsets) :
    Spells pool list (offset :: offsets)

namespace ContinuationPool

variable {pool : ContinuationPool} {list : ContinuationList} {offsets : List Nat}

/-- What is pushed later leaves a list as it is. -/
theorem Spells.after_push (spells : pool.Spells list offsets) (offset : Nat)
    (rest : ContinuationList) : (pool.push offset rest).2.Spells list offsets := by
  induction spells with
  | empty => exact .empty
  | cons popped _ inductionHypothesis =>
    exact .cons (pop?_push_of_pop? popped offset rest) inductionHypothesis

theorem Spells.push (spells : pool.Spells list offsets) (offset : Nat) :
    (pool.push offset list).2.Spells (pool.push offset list).1 (offset :: offsets) :=
  .cons (pop?_push pool offset list) (spells.after_push offset list)

end ContinuationPool

namespace ThreadedProgram

namespace Traversal

/-! ### The traversal without a bound -/

/-- The path has come to an offset that needs no node any more or is outside the code. -/
def Passes (traversal : Traversal) (offset : Nat) : Prop :=
  traversal.nodes.size ≤ offset ∨ (traversal.nodes[offset]?.join).isSome

/-- What following all paths comes to, however many turns it takes. -/
inductive Ends (fetch : Nat → Except DecodeError (Instruction × Nat)) :
    Traversal → ContinuationPool × Except DecodeError ThreadedProgram → Prop
  | done {traversal : Traversal} (idle : traversal.cursor = none) :
    Ends fetch traversal (traversal.pool, .ok ⟨traversal.nodes⟩)
  | passes {traversal : Traversal} {offset : Nat}
    {result : ContinuationPool × Except DecodeError ThreadedProgram}
    (comes : traversal.cursor = some offset) (passes : traversal.Passes offset)
    (onward : Ends fetch traversal.resume result) : Ends fetch traversal result
  | fails {traversal : Traversal} {offset : Nat} {error : DecodeError}
    (comes : traversal.cursor = some offset) (stops : ¬traversal.Passes offset)
    (fetched : fetch offset = .error error) : Ends fetch traversal (traversal.pool, .error error)
  | visits {traversal : Traversal} {offset length : Nat} {instruction : Instruction}
    {result : ContinuationPool × Except DecodeError ThreadedProgram}
    (comes : traversal.cursor = some offset) (stops : ¬traversal.Passes offset)
    (fetched : fetch offset = .ok (instruction, length))
    (onward : Ends fetch (traversal.advance offset ⟨instruction, offset + length⟩) result) :
    Ends fetch traversal result

/-- A traversal of so many bytes, at its start. -/
def start (size : Nat) (pool : ContinuationPool) : Traversal where
  nodes := Array.replicate size none
  pending := .empty
  pool := pool
  cursor := if size = 0 then none else some 0

/-- The offsets that a traversal still has to come to, the one it has come to first. -/
inductive Faces (traversal : Traversal) : List Nat → Prop
  | nothing (idle : traversal.cursor = none) : Faces traversal []
  | cons {offset : Nat} {offsets : List Nat} (comes : traversal.cursor = some offset)
    (pending : traversal.pool.Spells traversal.pending offsets) :
    Faces traversal (offset :: offsets)

variable {fetch : Nat → Except DecodeError (Instruction × Nat)} {traversal : Traversal}
  {agenda offsets : List Nat} {offset : Nat}

theorem Faces.of_cursor (faces : traversal.Faces agenda) (comes : traversal.cursor = some offset) :
    ∃ offsets, agenda = offset :: offsets ∧
      traversal.pool.Spells traversal.pending offsets := by
  cases faces with
  | nothing idle =>
    rw [idle] at comes
    cases comes
  | cons comesToo pending =>
    cases comes.symm.trans comesToo
    exact ⟨_, rfl, pending⟩

theorem faces_resume (pending : traversal.pool.Spells traversal.pending offsets) :
    traversal.resume.Faces offsets := by
  unfold resume
  generalize held : traversal.pending = list at pending
  cases pending with
  | empty => exact .nothing rfl
  | cons popped rest =>
    simp only [popped]
    exact .cons rfl rest

/-- The ways out of a visited instruction are faced next. -/
theorem faces_advance (pending : traversal.pool.Spells traversal.pending offsets) (offset : Nat)
    (node : ThreadedNode) :
    (traversal.advance offset node).Faces
      (node.instruction.successors offset node.next ++ offsets) := by
  have resumed : ({ traversal with
      nodes := traversal.nodes.setIfInBounds offset (some node) } : Traversal).resume.Faces
        offsets := faces_resume pending
  obtain ⟨instruction, next⟩ := node
  unfold advance Instruction.successors
  cases instruction with
  | jump distance => exact .cons rfl pending
  | jumpBackward distance =>
    cases (Instruction.jumpBackward distance).jumpTarget? offset with
    | none => exact resumed
    | some target => exact .cons rfl pending
  | halt | returnLocal | returnNonLocal | returnSelf | returnField => exact resumed
  | jumpOnTrueTopNil | jumpOnFalseTopNil | jumpOnTruePop | jumpOnFalsePop | jumpIfGreater =>
    exact .cons rfl (pending.push _)
  | _ => exact .cons rfl pending

/-! ### Threading ends -/

/-- What is left to do, counted in offsets without a node and offsets to come to. -/
def cost (traversal : Traversal) (agenda : List Nat) : Nat :=
  2 * traversal.nodes.countP Option.isNone + agenda.length

theorem countP_isNone_advance (stops : ¬traversal.Passes offset) (node : ThreadedNode) :
    (traversal.advance offset node).nodes.countP Option.isNone + 1 =
      traversal.nodes.countP Option.isNone := by
  simp only [Passes, not_or, Nat.not_le] at stops
  obtain ⟨inside, blank⟩ := stops
  have empty : traversal.nodes[offset] = none := by
    simpa [Array.getElem?_eq_getElem inside] using blank
  rw [nodes_advance, Array.setIfInBounds_def, dif_pos inside, Array.countP_set]
  have counted : 0 < traversal.nodes.countP Option.isNone :=
    Array.countP_pos_iff.mpr ⟨_, Array.getElem_mem inside, by rw [empty]; rfl⟩
  simp only [empty, Option.isNone_none, Option.isNone_some, if_true, Bool.false_eq_true, if_false]
  omega

/-- With room for the cost of what is left, the bound on the turns is never met. -/
theorem ends_follow {room : Nat} (faces : traversal.Faces agenda)
    (enough : traversal.cost agenda ≤ room) :
    Ends fetch traversal (follow fetch room traversal) := by
  induction room generalizing traversal agenda with
  | zero =>
    cases faces with
    | nothing idle => exact .done idle
    | cons => simp [cost] at enough
  | succ room inductionHypothesis =>
    rw [follow]
    split
    · rename_i idle
      exact .done idle
    · rename_i offset comes
      obtain ⟨offsets, rfl, pending⟩ := faces.of_cursor comes
      simp only [cost, List.length_cons] at enough
      split
      · rename_i passes
        refine .passes comes passes (inductionHypothesis (faces_resume pending) ?_)
        rw [cost, nodes_resume]
        omega
      · rename_i stops
        split
        · rename_i error fetched
          exact .fails comes stops fetched
        · rename_i instruction length fetched
          refine .visits comes stops fetched
            (inductionHypothesis (faces_advance pending offset _) ?_)
          have fewer := countP_isNone_advance stops ⟨instruction, offset + length⟩
          have ways := instruction.length_successors_le offset (offset + length)
          rw [cost, List.length_append]
          dsimp only
          omega

theorem faces_start (size : Nat) (pool : ContinuationPool) :
    (start size pool).Faces (if size = 0 then [] else [0]) := by
  by_cases empty : size = 0
  · rw [if_pos empty]
    exact .nothing (if_pos empty)
  · rw [if_neg empty]
    exact .cons (if_neg empty) .empty

end Traversal

theorem ends_compile (fetch : Nat → Except DecodeError (Instruction × Nat)) (size : Nat)
    (pool : ContinuationPool) :
    Traversal.Ends fetch (.start size pool) (compile fetch size pool) := by
  refine Traversal.ends_follow (Traversal.faces_start size pool) ?_
  have blank : (Traversal.start size pool).nodes.countP Option.isNone ≤ size := by
    have bound := @Array.countP_le_size _ Option.isNone (Traversal.start size pool).nodes
    simpa [Traversal.start] using bound
  have single : (if size = 0 then [] else [0]).length ≤ 1 := by split <;> simp
  rw [Traversal.cost]
  omega

namespace Traversal

/-! ### Threading comes to all offsets that can be come to -/

variable {fetch : Nat → Except DecodeError (Instruction × Nat)} {traversal : Traversal}
  {agenda offsets : List Nat} {offset target : Nat} {node : ThreadedNode}

def Has (traversal : Traversal) (offset : Nat) (node : ThreadedNode) : Prop :=
  traversal.nodes[offset]?.join = some node

/-- An offset inside the code that has a node or will get one. -/
def Covers (traversal : Traversal) (agenda : List Nat) (offset : Nat) : Prop :=
  offset < traversal.nodes.size → (∃ node, traversal.Has offset node) ∨ offset ∈ agenda

/-- What is true of a traversal that has come so far. -/
structure Explores (fetch : Nat → Except DecodeError (Instruction × Nat)) (traversal : Traversal)
    (agenda : List Nat) : Prop where
  faces : traversal.Faces agenda
  read : Read fetch traversal.nodes
  led : ∀ offset ∈ agenda, Led fetch offset
  visited : ∀ offset node, traversal.Has offset node → Led fetch offset
  start : traversal.Covers agenda 0
  closed : ∀ offset node, traversal.Has offset node →
    ∀ target ∈ node.instruction.successors offset node.next, traversal.Covers agenda target

theorem has_congr {other : Traversal} (same : other.nodes = traversal.nodes) :
    other.Has offset node ↔ traversal.Has offset node := by
  rw [Has, Has, same]

theorem has_advance (stops : ¬traversal.Passes offset) (node : ThreadedNode) {position : Nat}
    {held : ThreadedNode} :
    (traversal.advance offset node).Has position held ↔
      position = offset ∧ held = node ∨ traversal.Has position held := by
  simp only [Passes, not_or, Nat.not_le] at stops
  obtain ⟨inside, blank⟩ := stops
  rw [Has, nodes_advance, Array.getElem?_setIfInBounds]
  by_cases same : offset = position
  · subst same
    rw [if_pos rfl, if_pos inside]
    have absent : ¬traversal.Has offset held := fun has => blank (by rw [has]; rfl)
    simp only [Option.join_some, Option.some.injEq, true_and, absent, or_false]
    exact eq_comm
  · rw [if_neg same]
    simp only [Ne.symm same, false_and, false_or]
    exact Iff.rfl

theorem explores_start (size : Nat) (pool : ContinuationPool) :
    (start size pool).Explores fetch (if size = 0 then [] else [0]) := by
  have blank (offset : Nat) (node : ThreadedNode) : ¬(start size pool).Has offset node := by
    intro has
    rw [Has, start, Array.getElem?_replicate] at has
    split at has <;> cases has
  refine ⟨faces_start size pool, fun offset node has => absurd has (blank offset node),
    fun offset member => ?_, fun offset node has => absurd has (blank offset node),
    fun inside => .inr ?_, fun offset node has => absurd has (blank offset node)⟩
  · split at member
    · cases member
    · rw [List.mem_singleton.mp member]
      exact .start
  · rw [if_neg]
    · exact List.mem_singleton_self 0
    · rintro rfl
      exact absurd inside (by simp [start])

/-- An offset that has a node or is outside the code is struck off the agenda. -/
theorem Explores.resume (explores : traversal.Explores fetch (offset :: offsets))
    (passes : traversal.Passes offset)
    (pending : traversal.pool.Spells traversal.pending offsets) :
    traversal.resume.Explores fetch offsets := by
  have same := nodes_resume traversal
  have struck {target : Nat} (covers : traversal.Covers (offset :: offsets) target) :
      traversal.resume.Covers offsets target := by
    intro inside
    rw [same] at inside
    rcases covers inside with ⟨node, has⟩ | member
    · exact .inl ⟨node, (has_congr same).mpr has⟩
    · rcases List.mem_cons.mp member with rfl | member
      · rcases passes with outside | held
        · omega
        · obtain ⟨node, has⟩ := Option.isSome_iff_exists.mp held
          exact .inl ⟨node, (has_congr same).mpr has⟩
      · exact .inr member
  refine ⟨faces_resume pending, same ▸ explores.read,
    fun other member => explores.led other (List.mem_cons_of_mem _ member),
    fun other node has => explores.visited other node ((has_congr same).mp has),
    struck explores.start, fun other node has target member => ?_⟩
  exact struck (explores.closed other node ((has_congr same).mp has) target member)

/-- A visited offset gets its node, and its ways out come onto the agenda. -/
theorem Explores.advance (explores : traversal.Explores fetch (offset :: offsets))
    (stops : ¬traversal.Passes offset)
    (pending : traversal.pool.Spells traversal.pending offsets) {instruction : Instruction}
    {length : Nat} (fetched : fetch offset = .ok (instruction, length)) :
    (traversal.advance offset ⟨instruction, offset + length⟩).Explores fetch
      (instruction.successors offset (offset + length) ++ offsets) := by
  have led : Led fetch offset := explores.led offset List.mem_cons_self
  have size : (traversal.advance offset ⟨instruction, offset + length⟩).nodes.size =
      traversal.nodes.size := by
    rw [nodes_advance, Array.size_setIfInBounds]
  have covered {target : Nat} (covers : traversal.Covers (offset :: offsets) target) :
      (traversal.advance offset ⟨instruction, offset + length⟩).Covers
        (instruction.successors offset (offset + length) ++ offsets) target := by
    intro inside
    rcases covers (size ▸ inside) with ⟨node, has⟩ | member
    · exact .inl ⟨node, (has_advance stops _).mpr (.inr has)⟩
    · rcases List.mem_cons.mp member with rfl | member
      · exact .inl ⟨_, (has_advance stops _).mpr (.inl ⟨rfl, rfl⟩)⟩
      · exact .inr (List.mem_append_right _ member)
  refine ⟨faces_advance pending offset _, ?_, fun other member => ?_, fun other node has => ?_,
    covered explores.start, fun other node has target member => ?_⟩
  · rw [nodes_advance]
    exact read_set explores.read fetched
  · rcases List.mem_append.mp member with way | later
    · exact led.successor fetched way
    · exact explores.led other (List.mem_cons_of_mem _ later)
  · rcases (has_advance stops _).mp has with ⟨rfl, -⟩ | has
    · exact led
    · exact explores.visited other node has
  · rcases (has_advance stops _).mp has with ⟨rfl, rfl⟩ | has
    · exact fun _ => .inr (List.mem_append_left _ member)
    · exact covered (explores.closed other node has target member)

/-- The outcome of a traversal: the offsets that can be come to, or one that does not decode. -/
inductive Outcome (fetch : Nat → Except DecodeError (Instruction × Nat)) (size : Nat) :
    ContinuationPool × Except DecodeError ThreadedProgram → Prop
  | threaded {pool : ContinuationPool} {program : ThreadedProgram}
    (read : Read fetch program.nodes)
    (covers : ∀ offset, (∃ node, program.node? offset = some node) ↔
      offset < size ∧ Led fetch offset) : Outcome fetch size (pool, .ok program)
  | stuck {pool : ContinuationPool} {offset : Nat} {error : DecodeError} (inside : offset < size)
    (led : Led fetch offset) (fetched : fetch offset = .error error) :
    Outcome fetch size (pool, .error error)

theorem Explores.outcome {size : Nat}
    {result : ContinuationPool × Except DecodeError ThreadedProgram}
    (explores : traversal.Explores fetch agenda) (sized : traversal.nodes.size = size)
    (within : ∀ offset found, fetch offset = .ok found → offset < size)
    (ends : Ends fetch traversal result) : Outcome fetch size result := by
  induction ends generalizing agenda with
  | @done traversal idle =>
    have nothing : agenda = [] := by
      cases explores.faces with
      | nothing => rfl
      | cons comes => rw [idle] at comes; cases comes
    subst nothing
    have arrives {offset : Nat} (led : Led fetch offset) (inside : offset < size) :
        ∃ node, traversal.Has offset node := by
      have covered : traversal.Covers [] offset := by
        clear inside
        induction led with
        | start => exact explores.start
        | @falls offset length instruction _ fetched falls before =>
          obtain ⟨node, has⟩ :=
            (before (sized ▸ within _ _ fetched)).resolve_right List.not_mem_nil
          obtain ⟨standing, standingLength, fetchedToo, rfl⟩ := explores.read _ _ has
          cases fetched.symm.trans fetchedToo
          exact explores.closed _ _ has _ (Instruction.mem_successors.mpr (.inl ⟨falls, rfl⟩))
        | @jumps offset length target instruction _ fetched jumps before =>
          obtain ⟨node, has⟩ :=
            (before (sized ▸ within _ _ fetched)).resolve_right List.not_mem_nil
          obtain ⟨standing, standingLength, fetchedToo, rfl⟩ := explores.read _ _ has
          cases fetched.symm.trans fetchedToo
          exact explores.closed _ _ has _ (Instruction.mem_successors.mpr (.inr jumps))
      exact (covered (sized ▸ inside)).resolve_right List.not_mem_nil
    refine .threaded explores.read fun offset => ⟨?_, fun ⟨inside, led⟩ => arrives led inside⟩
    rintro ⟨node, has⟩
    obtain ⟨_, _, fetched, -⟩ := explores.read offset node has
    exact ⟨within _ _ fetched, explores.visited offset node has⟩
  | @passes traversal offset _ comes passes _ inductionHypothesis =>
    obtain ⟨offsets, rfl, pending⟩ := explores.faces.of_cursor comes
    exact inductionHypothesis (explores.resume passes pending)
      ((congrArg Array.size (nodes_resume traversal)).trans sized)
  | @fails traversal offset error comes stops fetched =>
    obtain ⟨offsets, rfl, pending⟩ := explores.faces.of_cursor comes
    simp only [Passes, not_or, Nat.not_le] at stops
    exact .stuck (sized ▸ stops.1) (explores.led offset List.mem_cons_self) fetched
  | @visits traversal offset length instruction _ comes stops fetched _ inductionHypothesis =>
    obtain ⟨offsets, rfl, pending⟩ := explores.faces.of_cursor comes
    refine inductionHypothesis (explores.advance stops pending fetched) ?_
    rw [nodes_advance, Array.size_setIfInBounds, sized]

end Traversal

/-- Threading gives nodes to the offsets that can be come to, or meets one that does not decode. -/
theorem outcome_compile {fetch : Nat → Except DecodeError (Instruction × Nat)} {size : Nat}
    (within : ∀ offset found, fetch offset = .ok found → offset < size)
    (pool : ContinuationPool) : Traversal.Outcome fetch size (compile fetch size pool) :=
  (Traversal.explores_start size pool).outcome (by simp [Traversal.start]) within
    (ends_compile fetch size pool)

end ThreadedProgram

/-! ### Patched code -/

/-- Every patch of a method is the resolution of the instruction whose place it takes. -/
def Heap.Patched (heap : Heap) (method : MethodId) : Prop :=
  ∀ offset patch, (heap.site method offset).patch = some patch →
    ∃ encoded length, heap.code.encoded method offset = .ok (encoded, length) ∧
      heap.code.resolution? method encoded = some patch

/-- Threaded code of a method as it is patched now. -/
def Heap.threading (heap : Heap) (method : MethodId) (pool : ContinuationPool) :
    ContinuationPool × Except DecodeError ThreadedProgram :=
  ThreadedProgram.compile (heap.instructionAt method) (heap.methods.get method).code.size pool

/-- A resolution leads where the instruction leads whose place it takes. -/
theorem Code.leads_of_resolution? {code : Code} {method : MethodId}
    {encoded instruction : Instruction}
    (resolved : code.resolution? method encoded = some instruction) (offset : Nat) :
    instruction.endsBlock = encoded.endsBlock ∧
      instruction.jumpTarget? offset = encoded.jumpTarget? offset := by
  rcases Code.resolution?_cases resolved with ⟨_, _, _, rfl, -, rfl⟩ | ⟨access, resolved⟩
  · exact ⟨rfl, rfl⟩
  · cases encoded <;> cases access <;>
      simp only [Activation.resolvedAccess?, Option.map_eq_some_iff, Option.bind_eq_some_iff]
        at resolved <;>
      obtain ⟨place, -, same⟩ := resolved <;> cases place <;> cases same <;>
      exact ⟨rfl, rfl⟩

namespace Heap

variable {heap : Heap} {method : MethodId} {offset length : Nat} {instruction : Instruction}

theorem instructionAt_of_decoded
    (decoded : decodeAt (heap.methods.get method).code offset = .ok (instruction, length)) :
    heap.instructionAt method offset =
      .ok ((heap.site method offset).patch.getD instruction, length) := by
  rw [instructionAt, MethodState.instructionAt, decoded]
  rfl

theorem instructionAt_eq_error {error : DecodeError} :
    heap.instructionAt method offset = .error error ↔
      decodeAt (heap.methods.get method).code offset = .error error := by
  rw [instructionAt, MethodState.instructionAt]
  cases decodeAt (heap.methods.get method).code offset with
  | ok => exact ⟨fun same => (by cases same), fun same => (by cases same)⟩
  | error => exact ⟨fun same => (by cases same; rfl), fun same => (by cases same; rfl)⟩

theorem decoded_of_instructionAt
    (found : heap.instructionAt method offset = .ok (instruction, length)) :
    ∃ encoded, decodeAt (heap.methods.get method).code offset = .ok (encoded, length) ∧
      instruction = (heap.site method offset).patch.getD encoded := by
  cases decoded : decodeAt (heap.methods.get method).code offset with
  | error error =>
    rw [instructionAt_eq_error.mpr decoded] at found
    cases found
  | ok pair =>
    rw [instructionAt_of_decoded decoded] at found
    cases found
    exact ⟨pair.1, rfl, rfl⟩

/-- What stands at an offset leads where the encoded instruction does. -/
theorem Patched.leads (patched : heap.Patched method) {encoded : Instruction}
    (decoded : decodeAt (heap.methods.get method).code offset = .ok (encoded, length)) :
    ((heap.site method offset).patch.getD encoded).endsBlock = encoded.endsBlock ∧
      ((heap.site method offset).patch.getD encoded).jumpTarget? offset =
        encoded.jumpTarget? offset := by
  cases patch : (heap.site method offset).patch with
  | none => exact ⟨rfl, rfl⟩
  | some instruction =>
    obtain ⟨other, otherLength, again, resolved⟩ := patched offset instruction patch
    cases (show Except.ok (other, otherLength) = Except.ok (encoded, length) from
      again.symm.trans decoded)
    exact Code.leads_of_resolution? resolved offset

theorem Patched.led_iff (patched : heap.Patched method) :
    Led (heap.instructionAt method) offset ↔
      Led (decodeAt (heap.methods.get method).code) offset := by
  constructor
  · intro led
    refine led.congr fun offset instruction length found => ?_
    obtain ⟨encoded, decoded, rfl⟩ := decoded_of_instructionAt found
    obtain ⟨sameEnd, sameTarget⟩ := patched.leads decoded
    exact ⟨encoded, decoded, sameEnd.symm, sameTarget.symm⟩
  · intro led
    refine led.congr fun offset encoded length decoded => ?_
    exact ⟨_, instructionAt_of_decoded decoded, patched.leads decoded⟩

end Heap

/-! ### The analysis comes to the same offsets -/

section

variable {code : Array UInt8} {arityOf : UInt8 → Nat} {offset depth : Nat}

theorem Reached.led (reached : Reached code arityOf offset depth) : Led (decodeAt code) offset := by
  induction reached with
  | start => exact .start
  | falls _ decoded _ falls led => exact .falls led decoded falls
  | jumps _ decoded _ jumps led => exact .jumps led decoded jumps

/-- Where the analysis succeeds it records the offsets that can be come to. -/
theorem led_iff_recorded {depths : StackDepths} (nonempty : code.size ≠ 0)
    (analyzed : analyze code arityOf = .ok depths) :
    Led (decodeAt code) offset ↔ ∃ depth, depths.before? offset = some depth := by
  have sound := StackDepths.sound_of_analyze analyzed
  have paths := (StackDepths.onPaths_start code arityOf).explored
    (StackDepths.explored_analyze code arityOf) analyzed
  constructor
  · intro led
    induction led with
    | start => exact ⟨0, sound.start nonempty⟩
    | falls _ decoded falls recorded =>
      obtain ⟨depth, recorded⟩ := recorded
      obtain ⟨other, otherLength, edges, decodedToo, -, -, -, ways, arrive⟩ :=
        sound.settled _ _ recorded
      cases decoded.symm.trans decodedToo
      exact ⟨_, (arrive _ (Instruction.edge_of_endsBlock ways falls)).2⟩
    | jumps _ decoded jumps recorded =>
      obtain ⟨depth, recorded⟩ := recorded
      obtain ⟨other, otherLength, edges, decodedToo, -, -, -, ways, arrive⟩ :=
        sound.settled _ _ recorded
      cases decoded.symm.trans decodedToo
      exact ⟨_, (arrive _ (Instruction.edge_of_jumpTarget? ways jumps)).2⟩
  · rintro ⟨depth, recorded⟩
    exact (paths.reached offset depth recorded).led

end

/--
Whatever the pool of continuation lists holds and whatever has been patched, threading ends on
every method, and it fails exactly when falling through and jumping lead to an offset inside the
code that does not decode. On a method that a draft with any code has become it succeeds: an
offset has a node exactly when the analysis of the draft has recorded a depth for it, and the
node holds the instruction that stands there now and the offset after the encoded one.
-/
theorem threading_sees_control_flow (heap : Heap) (method : MethodId)
    (patched : heap.Patched method) (pool : ContinuationPool) :
    ThreadedProgram.Traversal.Ends (heap.instructionAt method)
      (.start (heap.methods.get method).code.size pool) (heap.threading method pool) ∧
    ((∃ after error, heap.threading method pool = (after, .error error)) ↔
      ∃ offset error, offset < (heap.methods.get method).code.size ∧
        Led (decodeAt (heap.methods.get method).code) offset ∧
          decodeAt (heap.methods.get method).code offset = .error error) ∧
    ∀ draft symbols, heap.code.Completed method draft symbols →
      draft.assembler.code.size ≠ 0 →
        ∃ depths after program, analyze draft.assembler.code (draft.arityOf symbols) = .ok depths ∧
          heap.threading method pool = (after, .ok program) ∧
          ∀ offset,
            ((∃ node, program.node? offset = some node) ↔
              ∃ depth, depths.before? offset = some depth) ∧
            ∀ node, program.node? offset = some node → ∃ instruction encoded length,
              heap.instructionAt method offset = .ok (instruction, length) ∧
                decodeAt draft.assembler.code offset = .ok (encoded, length) ∧
                  node = ⟨instruction, offset + length⟩ := by
  have within (offset : Nat) (found : Instruction × Nat)
      (fetched : heap.instructionAt method offset = .ok found) :
      offset < (heap.methods.get method).code.size := by
    obtain ⟨encoded, decoded, -⟩ := Heap.decoded_of_instructionAt fetched
    exact lt_size_of_decodeAt decoded
  have outcome := ThreadedProgram.outcome_compile within pool
  -- The offsets with a node all decode, so a bad one among them rules threading out.
  have refused {after : ContinuationPool} {program : ThreadedProgram}
      (threads : heap.threading method pool = (after, .ok program)) {offset : Nat}
      {error : DecodeError} (inside : offset < (heap.methods.get method).code.size)
      (led : Led (decodeAt (heap.methods.get method).code) offset) :
      decodeAt (heap.methods.get method).code offset ≠ .error error := by
    intro undecoded
    rw [Heap.threading] at threads
    rw [threads] at outcome
    cases outcome with
    | threaded read covers =>
      obtain ⟨node, has⟩ := (covers offset).mpr ⟨inside, patched.led_iff.mpr led⟩
      obtain ⟨_, _, fetched, -⟩ := read offset node has
      rw [Heap.instructionAt_eq_error.mpr undecoded] at fetched
      cases fetched
  refine ⟨ThreadedProgram.ends_compile _ _ pool, ⟨?_, ?_⟩,
    fun draft symbols completed nonempty => ?_⟩
  · rintro ⟨after, error, threads⟩
    rw [Heap.threading] at threads
    rw [threads] at outcome
    cases outcome with
    | stuck inside led fetched =>
      exact ⟨_, error, inside, patched.led_iff.mp led, Heap.instructionAt_eq_error.mp fetched⟩
  · rintro ⟨offset, error, inside, led, undecoded⟩
    rcases threads : heap.threading method pool with ⟨after, failure | program⟩
    · exact ⟨after, failure, rfl⟩
    · exact absurd undecoded (refused threads inside led)
  · obtain ⟨depths, analyzed, sameCode, -, -⟩ := Draft.finish_spec completed.finished
    have sameCode : (heap.methods.get method).code = draft.assembler.code := sameCode
    rw [← sameCode] at nonempty analyzed
    rw [← sameCode]
    have recorded (offset : Nat) := @led_iff_recorded _ _ offset _ nonempty analyzed
    rw [Heap.threading]
    generalize ThreadedProgram.compile (heap.instructionAt method)
      (heap.methods.get method).code.size pool = threaded at outcome
    cases outcome with
    | @stuck after offset error inside led fetched =>
      obtain ⟨depth, record⟩ := (recorded offset).mp (patched.led_iff.mp led)
      obtain ⟨_, _, _, decoded, -⟩ :=
        (StackDepths.sound_of_analyze analyzed).settled offset depth record
      rw [Heap.instructionAt_eq_error.mp fetched] at decoded
      cases decoded
    | @threaded after program read covers =>
      refine ⟨depths, after, program, analyzed, rfl, fun offset => ⟨?_, fun node has => ?_⟩⟩
      · rw [covers, patched.led_iff, recorded, and_iff_right_iff_imp]
        rintro ⟨depth, record⟩
        obtain ⟨_, _, _, decoded, -⟩ :=
          (StackDepths.sound_of_analyze analyzed).settled offset depth record
        exact lt_size_of_decodeAt decoded
      · obtain ⟨instruction, length, fetched, rfl⟩ := read offset node has
        obtain ⟨encoded, decoded, -⟩ := Heap.decoded_of_instructionAt fetched
        exact ⟨instruction, encoded, length, fetched, decoded, rfl⟩

/-- The asking method once its super send has been patched. -/
def askedHeap : Heap :=
  askingMachine.heap.modifySite ⟨0⟩ 2 ({ · with patch := some (.quickSuperSend 0 .two) })

/-- Threading it beside a list of another method, there is a node for the patched super send. -/
theorem asked_threading :
    askedHeap.Patched ⟨0⟩ ∧ askedHeap.code.Completed ⟨0⟩ askingDraft askingSymbols ∧
      ∃ after program, askedHeap.threading ⟨0⟩ ⟨#[(7, .empty)]⟩ = (after, .ok program) ∧
        program.node? 2 = some ⟨.quickSuperSend 0 .two, 4⟩ := by
  have decoded : askingMachine.heap.code.encoded ⟨0⟩ 2 = .ok (.superSend 0 .ofSelector, 2) :=
    Code.encoded_of_toOption (by decide +kernel)
  have patched : askedHeap.Patched ⟨0⟩ :=
    (reachable_asking.ready.coherent.patch decoded (by decide +kernel)).patched ⟨0⟩
  have completed : askedHeap.code.Completed ⟨0⟩ askingDraft askingSymbols :=
    ⟨finish_asking, knows_asking, .refl _⟩
  obtain ⟨-, -, accepted⟩ :=
    threading_sees_control_flow askedHeap ⟨0⟩ patched ⟨#[(7, .empty)]⟩
  obtain ⟨depths, after, program, analyzed, threads, sees⟩ :=
    accepted askingDraft askingSymbols completed (by decide +kernel)
  have recorded : (analyze askingDraft.assembler.code
      (askingDraft.arityOf askingSymbols)).toOption.bind (·.before? 2) = some 2 := by
    decide +kernel
  rw [analyzed] at recorded
  obtain ⟨node, has⟩ := (sees 2).1.mpr ⟨2, recorded⟩
  obtain ⟨instruction, -, length, fetched, -, rfl⟩ := (sees 2).2 node has
  have found : (askedHeap.instructionAt ⟨0⟩ 2).toOption =
      some (.quickSuperSend 0 .two, 2) := by
    decide +kernel
  rw [fetched] at found
  cases found
  exact ⟨patched, completed, after, program, threads, has⟩

end ObjectMachine
