/-
This file shows that what the loops do for themselves cannot be observed: counting
backward jumps, making threaded code and reading a patched instruction again keep the
observed machine and its coherence. Every node of threaded code was read at its offset.
For code that the analysis of the operand stack accepts, making it never fails, because
the traversal only meets offsets that the analysis has reached, whatever the pool of
continuation lists held before.
-/

import ObjectMachine.Proofs.Observation
import ObjectMachine.Proofs.Coherence
import ObjectMachine.Proofs.StackAnalysis

namespace ObjectMachine

/-! ### Pending lists -/

namespace ContinuationPool

/-- A list of the pool all of whose offsets have been reached. -/
inductive Pending (pool : ContinuationPool) (Reached : Nat → Prop) : ContinuationList → Prop
  | empty : Pending pool Reached .empty
  | cons {list rest : ContinuationList} {offset : Nat}
    (popped : pool.pop? list = some (offset, rest)) (reached : Reached offset)
    (pending : Pending pool Reached rest) : Pending pool Reached list

variable {pool : ContinuationPool} {Reached : Nat → Prop}

theorem Pending.of_pop? {list rest : ContinuationList} {offset : Nat}
    (pending : pool.Pending Reached list) (popped : pool.pop? list = some (offset, rest)) :
    Reached offset ∧ pool.Pending Reached rest := by
  cases pending with
  | empty => cases popped
  | cons found reached pending =>
    rw [found] at popped
    cases popped
    exact ⟨reached, pending⟩

theorem pop?_push (pool : ContinuationPool) (offset : Nat) (rest : ContinuationList) :
    (pool.push offset rest).2.pop? (pool.push offset rest).1 = some (offset, rest) := by
  unfold push
  split
  · rename_i index found
    obtain ⟨inside, same, -⟩ := Array.findIdx?_eq_some_iff_getElem.mp found
    simp only [pop?, Array.getElem?_eq_getElem inside, eq_of_beq same]
  · simp [pop?, size]

theorem pop?_push_of_pop? {list : ContinuationList} {found : Nat × ContinuationList}
    (popped : pool.pop? list = some found) (offset : Nat) (rest : ContinuationList) :
    (pool.push offset rest).2.pop? list = some found := by
  unfold push
  split
  · exact popped
  · unfold pop? at popped ⊢
    split
    · rename_i none
      simp only [none] at popped
      cases popped
    · rename_i index handle
      simp only [handle] at popped
      have inside : index < pool.nodes.size := by
        rw [Array.getElem?_eq_some_iff] at popped
        exact popped.1
      simp only [Array.getElem?_push, Nat.ne_of_lt inside, if_false]
      exact popped

theorem Pending.after_push {list : ContinuationList} (pending : pool.Pending Reached list)
    (offset : Nat) (rest : ContinuationList) :
    (pool.push offset rest).2.Pending Reached list := by
  induction pending with
  | empty => exact .empty
  | cons popped reached _ inductionHypothesis =>
    exact .cons (pop?_push_of_pop? popped offset rest) reached inductionHypothesis

theorem Pending.push {rest : ContinuationList} {offset : Nat}
    (pending : pool.Pending Reached rest) (reached : Reached offset) :
    (pool.push offset rest).2.Pending Reached (pool.push offset rest).1 :=
  .cons (pop?_push pool offset rest) reached (pending.after_push offset rest)

end ContinuationPool

/-- The ways out of an instruction that threaded code follows have been reached. -/
structure Instruction.Opens (instruction : Instruction) (offset next : Nat)
    (Reached : Nat → Prop) : Prop where
  jumps : ∀ target, instruction.jumpTarget? offset = some target → Reached target
  falls : instruction.endsBlock = false → Reached next

/-! ### Making threaded code -/

namespace ThreadedProgram

/-- The nodes are what `fetch` reads at their offsets. -/
def Read (fetch : Nat → Except DecodeError (Instruction × Nat))
    (nodes : Array (Option ThreadedNode)) : Prop :=
  ∀ offset node, nodes[offset]?.join = some node →
    ∃ instruction length, fetch offset = .ok (instruction, length) ∧
      node = ⟨instruction, offset + length⟩

namespace Traversal

variable {fetch : Nat → Except DecodeError (Instruction × Nat)} {traversal : Traversal}

theorem nodes_resume (traversal : Traversal) : traversal.resume.nodes = traversal.nodes := by
  unfold resume
  split <;> rfl

theorem nodes_advance (traversal : Traversal) (offset : Nat) (node : ThreadedNode) :
    (traversal.advance offset node).nodes =
      traversal.nodes.setIfInBounds offset (some node) := by
  unfold advance
  dsimp only
  split
  · split
    · rfl
    · rw [nodes_resume]
  · split
    · rfl
    · rw [nodes_resume]
  · split
    · rw [nodes_resume]
    · split <;> rfl

theorem read_set {nodes : Array (Option ThreadedNode)} (read : Read fetch nodes) {offset : Nat}
    {instruction : Instruction} {length : Nat}
    (fetched : fetch offset = .ok (instruction, length)) :
    Read fetch (nodes.setIfInBounds offset (some ⟨instruction, offset + length⟩)) := by
  intro other node found
  rw [Array.getElem?_setIfInBounds] at found
  split at found
  · rename_i same
    subst same
    split at found
    · cases found
      exact ⟨instruction, length, fetched, rfl⟩
    · cases found
  · exact read other node found

theorem read_follow {room : Nat} {pool : ContinuationPool} {program : ThreadedProgram}
    (read : Read fetch traversal.nodes)
    (made : follow fetch room traversal = (pool, .ok program)) : Read fetch program.nodes := by
  induction room generalizing traversal with
  | zero =>
    cases made
    exact read
  | succ room inductionHypothesis =>
    rw [follow] at made
    split at made
    · cases made
      exact read
    · rename_i offset _
      split at made
      · exact inductionHypothesis (by rw [nodes_resume]; exact read) made
      · split at made
        · cases made
        · rename_i instruction length fetched
          exact inductionHypothesis (by rw [nodes_advance]; exact read_set read fetched) made

end Traversal

theorem read_compile {fetch : Nat → Except DecodeError (Instruction × Nat)} {size : Nat}
    {before after : ContinuationPool} {program : ThreadedProgram}
    (made : compile fetch size before = (after, .ok program)) : Read fetch program.nodes := by
  refine Traversal.read_follow (fun offset node found => ?_) made
  simp only [Array.getElem?_replicate] at found
  split at found <;> cases found

/-! ### Making threaded code never fails -/

namespace Traversal

/-- What a traversal needs to go on without meeting bytes that do not decode. -/
structure Reaches (traversal : Traversal) (Reached : Nat → Prop) : Prop where
  cursor : ∀ offset, traversal.cursor = some offset → Reached offset
  pending : traversal.pool.Pending Reached traversal.pending

variable {fetch : Nat → Except DecodeError (Instruction × Nat)} {traversal : Traversal}
  {Reached : Nat → Prop}

theorem Reaches.resume (reaches : traversal.Reaches Reached) :
    traversal.resume.Reaches Reached := by
  unfold Traversal.resume
  split
  · rename_i offset rest popped
    obtain ⟨reached, pending⟩ := reaches.pending.of_pop? popped
    exact ⟨fun other same => by cases same; exact reached, pending⟩
  · exact ⟨fun other same => (by cases same), reaches.pending⟩

theorem Reaches.advance (reaches : traversal.Reaches Reached) {offset : Nat}
    {node : ThreadedNode} (opens : node.instruction.Opens offset node.next Reached) :
    (traversal.advance offset node).Reaches Reached := by
  have withNode : ({ traversal with
      nodes := traversal.nodes.setIfInBounds offset (some node) } : Traversal).Reaches Reached :=
    ⟨reaches.cursor, reaches.pending⟩
  have jump {target : Nat} (found : node.instruction.jumpTarget? offset = some target) :
      ({ traversal with
          nodes := traversal.nodes.setIfInBounds offset (some node)
          cursor := some target } : Traversal).Reaches Reached :=
    ⟨fun other same => by cases same; exact opens.jumps target found, reaches.pending⟩
  unfold Traversal.advance
  dsimp only
  split
  · split
    · rename_i found
      exact jump found
    · exact withNode.resume
  · split
    · rename_i found
      exact jump found
    · exact withNode.resume
  · split
    · exact withNode.resume
    · rename_i continues
      have falls : Reached node.next := opens.falls (by simpa using continues)
      split
      · rename_i target found
        exact ⟨fun other same => by cases same; exact falls,
          reaches.pending.push (opens.jumps target found)⟩
      · exact ⟨fun other same => by cases same; exact falls, reaches.pending⟩

theorem follow_ok {room : Nat} (reaches : traversal.Reaches Reached)
    (fetches : ∀ offset, Reached offset → ∃ instruction length,
      fetch offset = .ok (instruction, length) ∧
        instruction.Opens offset (offset + length) Reached) :
    ∃ pool program, follow fetch room traversal = (pool, .ok program) := by
  induction room generalizing traversal with
  | zero => exact ⟨_, _, rfl⟩
  | succ room inductionHypothesis =>
    rw [follow]
    cases cursor : traversal.cursor with
    | none => exact ⟨_, _, rfl⟩
    | some offset =>
      dsimp only
      split
      · exact inductionHypothesis reaches.resume
      · obtain ⟨instruction, length, fetched, opens⟩ :=
          fetches offset (reaches.cursor offset cursor)
        rw [fetched]
        exact inductionHypothesis (reaches.advance opens)

end Traversal

theorem compile_ok {fetch : Nat → Except DecodeError (Instruction × Nat)} {size : Nat}
    {pool : ContinuationPool} (Reached : Nat → Prop) (start : size ≠ 0 → Reached 0)
    (fetches : ∀ offset, Reached offset → ∃ instruction length,
      fetch offset = .ok (instruction, length) ∧
        instruction.Opens offset (offset + length) Reached) :
    ∃ after program, compile fetch size pool = (after, .ok program) := by
  refine Traversal.follow_ok ⟨fun offset found => ?_, .empty⟩ fetches
  split at found
  · cases found
  · rename_i nonempty
    cases found
    exact start nonempty

end ThreadedProgram

/-! ### What cannot be observed -/

/-- A step that the program cannot tell: it keeps what is observed, and coherence. -/
structure Machine.Hides (before after : Machine) : Prop where
  observed : after.observed = before.observed
  coherent : after.heap.Coherent
  config : after.config = before.config

theorem Machine.Hides.refl {machine : Machine} (coherent : machine.heap.Coherent) :
    machine.Hides machine :=
  ⟨rfl, coherent, rfl⟩

theorem Machine.Hides.read {α : Type} {before after : Machine} (hides : before.Hides after)
    (read : Heap → α) (blind : ∀ heap : Heap, read heap.observed = read heap) :
    read after.heap = read before.heap := by
  rw [← blind after.heap, ← blind before.heap]
  exact (congrArg (fun machine : Machine => read machine.heap) hides.observed :)

theorem Machine.Hides.code {before after : Machine} (hides : before.Hides after) :
    after.heap.code = before.heap.code :=
  hides.read Heap.code fun _ => rfl

namespace Heap

variable {heap : Heap} {method : MethodId} {offset length : Nat} {instruction : Instruction}

theorem fitsNode_of_instructionAt
    (found : heap.instructionAt method offset = .ok (instruction, length)) :
    heap.FitsNode method offset ⟨instruction, offset + length⟩ := by
  obtain ⟨encoded, decoded, current⟩ := decodes_of_instructionAt found
  refine ⟨encoded, length, decoded, rfl, ?_⟩
  cases patch : (heap.site method offset).patch with
  | none =>
    rw [patch] at current
    exact .inl current.symm
  | some patched =>
    rw [patch] at current
    exact .inr (current ▸ rfl)

/-- Where an instruction is encoded, one can be read. -/
theorem instructionAt_of_stands (stands : heap.code.Stands method offset instruction length) :
    ∃ current, heap.instructionAt method offset = .ok (current, length) := by
  have decoded : ∃ encoded, decodeAt (heap.methods.get method).code offset =
      .ok (encoded, length) := by
    cases stands with
    | encoded found => exact ⟨_, found⟩
    | resolved encoded found resolved => exact ⟨encoded, found⟩
  obtain ⟨encoded, decoded⟩ := decoded
  simp only [instructionAt, MethodState.instructionAt, decoded]
  exact ⟨_, rfl⟩

/-- Threaded code can be replaced by any whose nodes fit. -/
theorem Coherent.rethread (coherent : heap.Coherent)
    {change : Option ThreadedProgram → Option ThreadedProgram}
    (fits : ∀ program, change (heap.states.get method).threaded = some program →
      ∀ offset node, program.node? offset = some node → heap.FitsNode method offset node) :
    (heap.modifyState method fun state =>
      { state with threaded := change state.threaded }).Coherent := by
  have patches (other : MethodId) (position : Nat) :
      ((heap.modifyState method fun state =>
        { state with threaded := change state.threaded }).site other position).patch =
          (heap.site other position).patch :=
    heap.read_site_modifyState method other position Site.patch fun _ _ => rfl
  have receivers (other : MethodId) (position : Nat) :
      ((heap.modifyState method fun state =>
        { state with threaded := change state.threaded }).site other position).receiverClass =
          (heap.site other position).receiverClass :=
    heap.read_site_modifyState method other position Site.receiverClass fun _ _ => rfl
  refine ⟨fun other position patch found => ?_, fun other position cls found => ?_,
    fun other program position node made found => ?_⟩
  · rw [patches] at found
    exact coherent.patched other position patch found
  · rw [receivers] at found
    exact coherent.received other position cls found
  · rw [FitsNode, patches]
    rcases Table.get_modify_cases heap.states method other
      fun state => { state with threaded := change state.threaded } with same | ⟨rfl, same⟩
    · refine coherent.threaded other program position node ?_ found
      rw [← made, Heap.modifyState, same]
    · refine fits program ?_ position node found
      rw [← made, Heap.modifyState, same]

theorem site_resetBackEdges (state : MethodState) (offset : Nat) :
    state.resetBackEdges.site offset =
      { state.site offset with backEdge := (state.site offset).backEdge.reset } := by
  simp only [MethodState.resetBackEdges, MethodState.site, Array.getD_eq_getD_getElem?,
    Array.getElem?_map]
  cases state.sites[offset]? <;> rfl

theorem threaded_modifyState (heap : Heap) (method : MethodId)
    (change : ThreadedProgram → ThreadedProgram) :
    ((heap.modifyState method fun state =>
      { state with threaded := state.threaded.map change }).states.get method).threaded =
        (heap.states.get method).threaded.map change := by
  by_cases has : heap.states.Has method
  · rw [modifyState, Table.get_modify_self _ _ _ has]
  · rw [modifyState, Table.modify_of_not_has _ _ _ has, Table.get_of_not_has _ _ has]
    rfl

/-- A node is what is to be run at an offset. -/
def Reads (heap : Heap) (method : MethodId) (offset : Nat) (node : ThreadedNode) : Prop :=
  ∃ length, heap.instructionAt method offset = .ok (node.instruction, length) ∧
    node.next = offset + length

/-- Threaded code holds for an offset what is to be run there, if it holds anything. -/
def Current (heap : Heap) (method : MethodId) (offset : Nat) : Prop :=
  ∀ node, (heap.states.get method).threaded.bind (·.node? offset) = some node →
    heap.Reads method offset node

end Heap

namespace Engine

variable {method : MethodId} {offset : Nat} {machine : Machine}

theorem takeBackEdge_hides (coherent : machine.heap.Coherent) :
    ∃ state after, takeBackEdge method offset machine = .ok state after ∧ machine.Hides after := by
  refine ⟨_, _, rfl, ?_, coherent.modifySite_aside (fun _ => rfl) fun _ => rfl, rfl⟩
  simp only [Machine.observed]
  congr 1
  refine Heap.modifyState_hidden machine.heap method fun state => ?_
  simp only [MethodState.observed, MethodState.modifySite]
  congr 1
  apply Array.ext
  · simp
  · intro position _ _
    simp only [Array.getElem_map, Array.getElem_modify]
    split <;> rfl

theorem resetBackEdges_hides (coherent : machine.heap.Coherent) :
    ∃ after, resetBackEdges method machine = .ok () after ∧ machine.Hides after := by
  refine ⟨_, rfl, ?_, coherent.modifyState (fun state offset => ?_) (fun state offset => ?_)
    fun _ => rfl, rfl⟩
  · simp only [Machine.observed]
    congr 1
    refine Heap.modifyState_hidden machine.heap method fun state => ?_
    simp only [MethodState.observed, MethodState.resetBackEdges, Array.map_map]
    rfl
  · rw [Heap.site_resetBackEdges]
  · rw [Heap.site_resetBackEdges]

theorem countTransfer_hides (coherent : machine.heap.Coherent) (toward : Tier) :
    ∃ after, countTransfer toward machine = .ok () after ∧ machine.Hides after := by
  refine ⟨_, rfl, ?_⟩
  cases toward <;> exact ⟨rfl, coherent, rfl⟩

theorem badBytecode_fails {α : Type} (method : MethodId) (error : DecodeError)
    (machine : Machine) :
    ∃ abrupt, (badBytecode method error : Engine α) machine = .error abrupt machine ∧
      ∀ other, abrupt ≠ .stackFault other := by
  show ∃ abrupt, ((orEndless (machine.heap.listing? method)) >>= _ : Engine α) machine = _ ∧ _
  cases machine.heap.listing? method with
  | some listing => exact ⟨_, rfl, fun _ same => by cases same⟩
  | none => exact ⟨_, rfl, fun _ same => by cases same⟩

theorem instructionAt_of_ok {found : Instruction × Nat}
    (read : machine.heap.instructionAt method offset = .ok found) :
    instructionAt method offset machine = .ok found machine := by
  have heard : heapValue (·.instructionAt method offset) machine = .ok (.ok found) machine :=
    congrArg (EStateM.Result.ok · machine) read
  rw [instructionAt, Engine.bind_of_ok heard]
  rfl

theorem instructionAt_of_error {error : DecodeError}
    (read : machine.heap.instructionAt method offset = .error error) :
    ∃ abrupt, instructionAt method offset machine = .error abrupt machine ∧
      ∀ other, abrupt ≠ .stackFault other := by
  have heard : heapValue (·.instructionAt method offset) machine = .ok (.error error) machine :=
    congrArg (EStateM.Result.ok · machine) read
  rw [instructionAt, Engine.bind_of_ok heard]
  exact badBytecode_fails method error machine

theorem threadedNode?_eq (method : MethodId) (offset : Nat) (machine : Machine) :
    threadedNode? method offset machine =
      .ok ((machine.heap.states.get method).threaded.bind (·.node? offset)) machine := by
  rw [threadedNode?]
  show EStateM.Result.ok _ machine = _
  dsimp only
  cases (machine.heap.states.get method).threaded <;> rfl

/-- Where an instruction stands, reading it again cannot fail. -/
theorem refreshThreaded_hides {instruction : Instruction} {length : Nat}
    (coherent : machine.heap.Coherent)
    (stands : machine.heap.code.Stands method offset instruction length) :
    ∃ after, refreshThreaded method offset machine = .ok () after ∧ machine.Hides after ∧
      after.heap.Current method offset := by
  obtain ⟨current, found⟩ := Heap.instructionAt_of_stands stands
  have refreshed : refreshThreaded method offset machine =
      .ok () { machine with
        heap := machine.heap.modifyState method fun state =>
          { state with
            threaded := state.threaded.map fun program =>
              ⟨program.nodes.setIfInBounds offset (some ⟨current, offset + length⟩)⟩ } } := by
    rw [refreshThreaded, bind_of_ok (instructionAt_of_ok found)]
    rfl
  have renewed {program : ThreadedProgram} {node : ThreadedNode}
      (held : ThreadedProgram.node?
        ⟨program.nodes.setIfInBounds offset (some ⟨current, offset + length⟩)⟩ offset =
          some node) : node = ⟨current, offset + length⟩ := by
    simp only [ThreadedProgram.node?, Array.getElem?_setIfInBounds, if_true] at held
    split at held <;> cases held
    rfl
  have hides : machine.Hides { machine with
      heap := machine.heap.modifyState method fun state =>
        { state with
          threaded := state.threaded.map fun program =>
            ⟨program.nodes.setIfInBounds offset (some ⟨current, offset + length⟩)⟩ } } := by
    refine ⟨?_, ?_, rfl⟩
    · simp only [Machine.observed]
      congr 1
      exact Heap.modifyState_hidden machine.heap method fun _ => rfl
    · refine coherent.rethread fun program made other node held => ?_
      obtain ⟨before, known, rfl⟩ := Option.map_eq_some_iff.mp made
      by_cases same : offset = other
      · subst same
        rw [renewed held]
        exact Heap.fitsNode_of_instructionAt found
      · refine coherent.threaded method before other node known ?_
        simpa only [ThreadedProgram.node?, Array.getElem?_setIfInBounds, if_neg same] using held
  refine ⟨_, refreshed, hides, fun node held => ?_⟩
  obtain ⟨program, made, held⟩ := Option.bind_eq_some_iff.mp held
  rw [Heap.threaded_modifyState] at made
  obtain ⟨before, -, rfl⟩ := Option.map_eq_some_iff.mp made
  rw [renewed held]
  refine ⟨length, ?_, rfl⟩
  rw [hides.read (·.instructionAt method offset) fun heap =>
    heap.instructionAt_observed method offset]
  exact found

theorem threadedCode_eq (method : MethodId) (machine : Machine) :
    threadedCode method machine =
      match ThreadedProgram.compile (machine.heap.instructionAt method)
        (machine.heap.methods.get method).code.size machine.continuations with
      | (pool, .ok program) => .ok program { machine with continuations := pool }
      | (pool, .error error) =>
        badBytecode method error { machine with continuations := pool } := by
  have got : (get : Engine Machine) machine = .ok machine machine := rfl
  rw [threadedCode, Engine.bind_of_ok got]
  dsimp only
  rcases ThreadedProgram.compile (machine.heap.instructionAt method)
    (machine.heap.methods.get method).code.size machine.continuations with ⟨pool, error | program⟩
  · rfl
  · rfl

/-- Threaded code that has just been made may be kept. -/
theorem keepThreaded_hides {pool before : ContinuationPool} {program : ThreadedProgram}
    (coherent : machine.heap.Coherent)
    (made : ThreadedProgram.compile (machine.heap.instructionAt method)
      (machine.heap.methods.get method).code.size before = (pool, .ok program)) :
    machine.Hides { machine with
      continuations := pool
      heap := machine.heap.modifyState method fun state =>
        { state with threaded := some program } } := by
  refine ⟨?_, ?_, rfl⟩
  · simp only [Machine.observed]
    congr 1
    exact Heap.modifyState_hidden machine.heap method fun _ => rfl
  · refine @Heap.Coherent.rethread _ method coherent (fun _ => some program)
      fun other same offset node held => ?_
    cases same
    obtain ⟨instruction, length, found, rfl⟩ :=
      ThreadedProgram.read_compile made offset node held
    exact Heap.fitsNode_of_instructionAt found

/-- Whether threaded code is there or made now; only bytes that do not decode stop it. -/
theorem ensureThreaded_hides (coherent : machine.heap.Coherent) :
    (∃ made after, ensureThreaded method machine = .ok made after ∧ machine.Hides after) ∨
      (∃ pool error, ThreadedProgram.compile (machine.heap.instructionAt method)
        (machine.heap.methods.get method).code.size machine.continuations = (pool, .error error)) ∧
      ∃ abrupt after, ensureThreaded method machine = .error abrupt after ∧
        machine.Hides after ∧ ∀ other, abrupt ≠ .stackFault other := by
  have unfolded : ensureThreaded method machine = (if (machine.heap.states.get method).invocations <
      machine.config.warmThreshold then pure false
    else if (machine.heap.states.get method).threaded.isSome then pure true
    else threadedCode method >>= fun program => do
      changeHeap (·.modifyState method fun state => { state with threaded := some program })
      return true : Engine Bool) machine := by
    rw [ensureThreaded]
    rfl
  rw [unfolded]
  split
  · exact .inl ⟨_, _, rfl, .refl coherent⟩
  · split
    · exact .inl ⟨_, _, rfl, .refl coherent⟩
    · have threaded := threadedCode_eq method machine
      rcases made : ThreadedProgram.compile (machine.heap.instructionAt method)
        (machine.heap.methods.get method).code.size machine.continuations
        with ⟨pool, error | program⟩
      · obtain ⟨abrupt, failed, lenient⟩ := @badBytecode_fails ThreadedProgram method error
          { machine with continuations := pool }
        rw [made] at threaded
        rw [bind_of_error (threaded.trans failed)]
        exact .inr ⟨⟨pool, error, rfl⟩, abrupt, _, rfl, ⟨rfl, coherent, rfl⟩, lenient⟩
      · rw [made] at threaded
        rw [bind_of_ok threaded]
        exact .inl ⟨_, _, rfl, keepThreaded_hides coherent made⟩

end Engine

/-! ### Instructions of threaded code -/

/--
What threaded code holds for an offset: the instruction that is to be run there, or the
encoded one in whose place the other has been put since.
-/
inductive Heap.Holds (heap : Heap) (method : MethodId) (offset : Nat) (node : ThreadedNode) : Prop
  | fresh (reads : heap.Reads method offset node)
  | stale (length : Nat) (instruction : Instruction)
    (found : heap.code.encoded method offset = .ok (node.instruction, length))
    (next : node.next = offset + length)
    (patched : (heap.site method offset).patch = some instruction)

theorem Heap.FitsNode.holds {heap : Heap} {method : MethodId} {offset : Nat}
    {node : ThreadedNode} (fits : heap.FitsNode method offset node) :
    heap.Holds method offset node := by
  obtain ⟨encoded, length, found, next, same⟩ := fits
  have current : heap.instructionAt method offset =
      .ok ((heap.site method offset).patch.getD encoded, length) := by
    have decoded : decodeAt (heap.methods.get method).code offset = .ok (encoded, length) := found
    simp only [instructionAt, MethodState.instructionAt, decoded]
    rfl
  rcases same with same | patched
  · cases patch : (heap.site method offset).patch with
    | none =>
      rw [patch] at current
      exact .fresh ⟨length, same ▸ current, next⟩
    | some other => exact .stale length other (same ▸ found) next patch
  · rw [patched] at current
    exact .fresh ⟨length, current, next⟩

/-- What is held for an offset stands there. -/
theorem Heap.Holds.stands {heap : Heap} {method : MethodId} {offset : Nat} {node : ThreadedNode}
    (holds : heap.Holds method offset node) (coherent : heap.Coherent) :
    ∃ length, node.next = offset + length ∧
      heap.code.Stands method offset node.instruction length := by
  cases holds with
  | fresh reads =>
    obtain ⟨length, current, next⟩ := reads
    exact ⟨length, next, coherent.stands current⟩
  | stale length instruction found next patched => exact ⟨length, next, .encoded found⟩

namespace Activation

variable {activation : Activation} {offset : Nat} {machine : Machine}

/--
Fetching gives what is to be run at the offset, or else what threaded code holds for it;
if that is nothing and no instruction can be read, it fails as reading does.
-/
theorem fetchThreaded_cases (activation : Activation) (hasProgram : Bool) (offset : Nat)
    (machine : Machine) :
    (∃ node, activation.fetchThreaded hasProgram offset machine = .ok node machine ∧
      (machine.heap.Reads activation.method offset node ∨ hasProgram = true ∧
        (machine.heap.states.get activation.method).threaded.bind (·.node? offset) =
          some node)) ∨
    ∃ abrupt, activation.fetchThreaded hasProgram offset machine = .error abrupt machine ∧
      Engine.instructionAt activation.method offset machine = .error abrupt machine ∧
      ∀ other, abrupt ≠ .stackFault other := by
  have decoded : (∃ node, (do
        let found ← Engine.instructionAt activation.method offset
        return ⟨found.1, offset + found.2⟩ : Engine ThreadedNode) machine = .ok node machine ∧
        machine.heap.Reads activation.method offset node) ∨
      ∃ abrupt, (do
        let found ← Engine.instructionAt activation.method offset
        return ⟨found.1, offset + found.2⟩ : Engine ThreadedNode) machine =
          .error abrupt machine ∧
        Engine.instructionAt activation.method offset machine = .error abrupt machine ∧
        ∀ other, abrupt ≠ .stackFault other := by
    cases found : machine.heap.instructionAt activation.method offset with
    | ok pair =>
      rw [Engine.bind_of_ok (Engine.instructionAt_of_ok found)]
      exact .inl ⟨_, rfl, pair.2, found, rfl⟩
    | error error =>
      obtain ⟨abrupt, failed, lenient⟩ := Engine.instructionAt_of_error found
      rw [Engine.bind_of_error failed]
      exact .inr ⟨abrupt, rfl, failed, lenient⟩
  rw [fetchThreaded]
  cases hasProgram with
  | false =>
    refine decoded.imp_left fun found => ?_
    obtain ⟨node, fetched, reads⟩ := found
    exact ⟨node, fetched, .inl reads⟩
  | true =>
    rw [if_pos rfl, Engine.bind_of_ok (Engine.threadedNode?_eq _ offset machine)]
    cases held : (machine.heap.states.get activation.method).threaded.bind (·.node? offset) with
    | none =>
      refine decoded.imp_left fun found => ?_
      obtain ⟨node, fetched, reads⟩ := found
      exact ⟨node, fetched, .inl reads⟩
    | some node => exact .inl ⟨node, rfl, .inr ⟨rfl, rfl⟩⟩

/-- Where code is coherent, what is fetched stands or has been replaced. -/
theorem fetchThreaded_holds (coherent : machine.heap.Coherent) {hasProgram : Bool}
    {node : ThreadedNode}
    (fetched : machine.heap.Reads activation.method offset node ∨ hasProgram = true ∧
      (machine.heap.states.get activation.method).threaded.bind (·.node? offset) = some node) :
    machine.heap.Holds activation.method offset node := by
  rcases fetched with reads | ⟨-, held⟩
  · exact .fresh reads
  · obtain ⟨program, made, found⟩ := Option.bind_eq_some_iff.mp held
    exact (coherent.threaded _ program offset node made found).holds

/-- On a coherent heap, threaded code runs an instruction as the other loop does. -/
theorem executeThreaded_eq {call : Caller} {length : Nat} {instruction : Instruction}
    (coherent : machine.heap.Coherent)
    (stands : machine.heap.code.Stands activation.method offset instruction length) :
    activation.executeThreaded call offset instruction machine =
      activation.execute call offset instruction machine := by
  cases instruction with
  | send literal arity => exact sendInlined_eq_send coherent stands
  | _ => rfl

/-- Running an instruction that has a resolution puts this one in its place. -/
theorem execute_of_resolved (call : Caller) {instruction resolution : Instruction}
    (resolved : machine.heap.code.resolution? activation.method instruction = some resolution) :
    activation.execute call offset instruction machine = .ok (.retry, activation)
      { machine with
        heap := machine.heap.modifySite activation.method offset
          ({ · with patch := some resolution }) } := by
  rcases Code.resolution?_cases resolved with ⟨literal, arity, selector, rfl, named, rfl⟩ |
    ⟨access, resolved⟩
  · show activation.quickenSuperSend offset literal machine = _
    rw [quickenSuperSend, Engine.bind_of_ok (literal_of_found named offset)]
    rfl
  · have accessed : activation.execute call offset instruction =
        activation.resolveAccess offset instruction := by
      cases instruction <;> cases access <;> rfl
    have scope : Engine.heapValue (fun heap => (heap.methods.get activation.method).scope)
        machine = .ok (machine.heap.methods.get activation.method).scope machine := rfl
    rw [accessed, resolveAccess, Engine.bind_of_ok scope, show Activation.resolvedAccess?
      (machine.heap.methods.get activation.method).scope instruction = some resolution
        from resolved]
    rfl

/-- Running an instruction that has been replaced replaces it again by the same one. -/
theorem execute_of_patched {call : Caller} {length : Nat} {encoded instruction : Instruction}
    (coherent : machine.heap.Coherent)
    (found : machine.heap.code.encoded activation.method offset = .ok (encoded, length))
    (patched : (machine.heap.site activation.method offset).patch = some instruction) :
    activation.execute call offset encoded machine = .ok (.retry, activation) machine := by
  obtain ⟨other, otherLength, again, resolved⟩ :=
    coherent.patched activation.method offset instruction patched
  have same : Except.ok (other, otherLength) = Except.ok (encoded, length) :=
    again.symm.trans found
  cases same
  rw [execute_of_resolved call resolved, Heap.modifySite_of_fixed (by rw [← patched])]

end Activation

end ObjectMachine
