/-
This file follows an access to a variable through the machine. On its first execution it only
puts the access to a slot in its own place, and the same turn is taken again; threaded code may
hold the old instruction for longer, which then does the same once more. After that it reads a
slot or stores into one, of the running frame or of a context that is found further out.
-/

import ObjectMachine.Proofs.Homes
import ObjectMachine.Proofs.Placement
import ObjectMachine.Proofs.Readiness

namespace ObjectMachine

/-! ### Accesses to variables -/

/-- What an access does with its variable. -/
inductive Usage
  | push
  | pop
  /-- Stores nil. -/
  | clear
deriving DecidableEq

/-- An access to a variable that is known by its position, a number of scopes out. -/
structure Access where
  usage : Usage
  kind : VariableKind
  index : UInt8
  level : UInt8
deriving DecidableEq

def Instruction.access? : Instruction → Option Access
  | .pushLocal index level => some ⟨.push, .local, index, level⟩
  | .pushArgument index level => some ⟨.push, .argument, index, level⟩
  | .popLocal index level => some ⟨.pop, .local, index, level⟩
  | .popArgument index level => some ⟨.pop, .argument, index, level⟩
  | .nilLocal index => some ⟨.clear, .local, index, 0⟩
  | _ => none

theorem Instruction.isUnresolvedAccess_eq (instruction : Instruction) :
    instruction.isUnresolvedAccess = instruction.access?.isSome := by
  cases instruction <;> rfl

namespace Access

/-- The instruction that reaches a slot. -/
def reach? (usage : Usage) : VariableAccess → Option Instruction :=
  match usage with
  | .push => fun slot => some slot.push
  | .pop => fun slot => some slot.pop
  | .clear => VariableAccess.nil?

end Access

/-- How a place is reached from code that is a number of scopes further in. -/
def VariablePlace.from? (level : UInt8) : VariablePlace → Option VariableAccess
  | .frame slot => if level = 0 then some (.ownFrame (UInt8.ofNat slot)) else none
  | .inner slot =>
    if level = 0 then some (.ownInner (UInt8.ofNat slot))
    else some (.outerInner (UInt8.ofNat slot) level)

def VariablePlace.slot : VariablePlace → Nat
  | .frame slot | .inner slot => slot

theorem Scope.resolve?_eq (scope : Scope) (kind : VariableKind) (index level : UInt8) :
    scope.resolve? kind index level =
      (scope.placeOf? kind index level).bind (VariablePlace.from? level) := by
  unfold resolve?
  cases scope.placeOf? kind index level with
  | none => rfl
  | some place => cases place <;> rfl

/-- A variable other than a receiver has the place that its level has given it. -/
theorem Scope.placeOf?_eq (scope : Scope) {kind : VariableKind} {index : UInt8} (level : UInt8)
    (other : kind = .argument → index ≠ 0) :
    scope.placeOf? kind index level =
      (scope.level? level.toNat).bind (·.placeOf? kind index.toNat) := by
  unfold placeOf?
  cases scope.level? level.toNat with
  | none => rfl
  | some declaring =>
    cases kind with
    | «local» => rfl
    | argument =>
      have positive : index.toNat ≠ 0 := fun zero => other rfl (UInt8.toNat_inj.mp zero)
      obtain ⟨before, same⟩ := Nat.exists_eq_succ_of_ne_zero positive
      show (if index = 0 then _ else declaring.arguments[index.toNat - 1]?) =
        declaring.placeOf? .argument index.toNat
      rw [if_neg (other rfl), same]
      rfl

/-- A receiver further out is in the context, if there is one. -/
theorem Scope.placeOf?_receiver {scope : Scope} {level : UInt8} {declaring : ScopeLevel}
    (declares : scope.level? level.toNat = some declaring) :
    scope.placeOf? .argument 0 level =
      if level = 0 then some (.frame 0)
      else if declaring.hasContext then some (.inner 0) else none := by
  rw [placeOf?, declares]
  rfl

namespace Activation

theorem resolvedAccess?_eq (scope : Scope) {instruction : Instruction} {access : Access}
    (accesses : instruction.access? = some access) :
    resolvedAccess? scope instruction =
      (scope.resolve? access.kind access.index access.level).bind
        (Access.reach? access.usage) := by
  cases instruction <;> cases accesses <;> first | rfl | exact Option.map_eq_bind

end Activation

/-! ### What a turn reads -/

section

variable {leg : Leg} {activation : Activation} {offset : Nat} {machine after : Machine}
  {node : ThreadedNode}

/-- What a turn reads is what is to be run, or what that has been put in the place of. -/
theorem Leg.holds_of_fetch (coherent : machine.heap.Coherent)
    (fetched : leg.fetch activation offset machine = .ok node after) :
    machine.heap.Holds activation.method offset node := by
  cases leg with
  | threaded hasProgram hybrid =>
    rcases activation.fetchThreaded_cases hasProgram offset machine with
      ⟨found, same, holds⟩ | ⟨abrupt, failed, -⟩
    · obtain rfl : node = found := by
        have equal := fetched.symm.trans same
        cases equal
        rfl
      exact Activation.fetchThreaded_holds coherent holds
    · cases fetched.symm.trans failed
  | sequential hybrid =>
    cases found : machine.heap.instructionAt activation.method offset with
    | ok pair =>
      have equal := fetched.symm.trans (Engine.bind_of_ok (Engine.instructionAt_of_ok found))
      cases equal
      exact .fresh ⟨pair.2, found, rfl⟩
    | error error =>
      obtain ⟨abrupt, failed, -⟩ := Engine.instructionAt_of_error found
      cases fetched.symm.trans (Engine.bind_of_error failed)

end

/-- What stands in the place of an access is what it is resolved to. -/
theorem Code.resolution?_of_access {code : Code} {method : MethodId} {instruction : Instruction}
    {access : Access} (accesses : instruction.access? = some access) :
    code.resolution? method instruction =
      Activation.resolvedAccess? (code.methods.get method).scope instruction := by
  cases instruction <;> cases accesses <;> rfl

namespace Leg

variable {leg : Leg} {activation : Activation} {offset length : Nat} {machine after : Machine}
  {instruction : Instruction} {node : ThreadedNode}

/-- Where an instruction is encoded, a turn reads it or what stands in its place. -/
theorem fetch_of_encoded (leg : Leg) (coherent : machine.heap.Coherent)
    (encoded : machine.heap.code.encoded activation.method offset = .ok (instruction, length)) :
    ∃ node, leg.fetch activation offset machine = .ok node machine ∧
      node.next = offset + length ∧ (node.instruction = instruction ∨
        machine.heap.code.resolution? activation.method instruction =
          some node.instruction) := by
  obtain ⟨current, read⟩ := Heap.instructionAt_of_stands (.encoded encoded)
  have fetched : ∃ node, leg.fetch activation offset machine = .ok node machine := by
    cases leg with
    | threaded hasProgram hybrid =>
      rcases activation.fetchThreaded_cases hasProgram offset machine with
        ⟨node, found, -⟩ | ⟨abrupt, -, failed, -⟩
      · exact ⟨node, found⟩
      · cases failed.symm.trans (Engine.instructionAt_of_ok read)
    | sequential hybrid => exact ⟨_, Engine.bind_of_ok (Engine.instructionAt_of_ok read)⟩
  obtain ⟨node, fetched⟩ := fetched
  obtain ⟨size, next, stands⟩ := (holds_of_fetch coherent fetched).stands coherent
  refine ⟨node, fetched, ?_⟩
  cases stands with
  | encoded found =>
    have same := found.symm.trans encoded
    cases node
    cases same
    exact ⟨next, .inl rfl⟩
  | resolved other found resolved =>
    cases found.symm.trans encoded
    exact ⟨next, .inr resolved⟩

theorem begin_of_not_send (leg : Leg)
    (other : ∀ literal arity, instruction ≠ .send literal arity) :
    leg.begin activation offset instruction = activation.begin offset instruction := by
  cases leg with
  | sequential hybrid => rfl
  | threaded hasProgram hybrid =>
    cases instruction with
    | send literal arity => exact (other literal arity rfl).elim
    | _ => rfl

/-- A turn whose instruction does not call goes on as the instruction says. -/
theorem advance_of_done (fetched : leg.fetch activation offset machine = .ok node machine)
    (other : ∀ literal arity, node.instruction ≠ .send literal arity) {flow : Flow}
    {next : Activation}
    (begun : activation.begin offset node.instruction machine = .ok (.done flow next) after) :
    leg.advance activation offset machine =
      (do return .turned (← leg.follow next offset node.next flow) : Engine TurnStep) after := by
  rw [advance, Engine.bind_of_ok fetched, stopsBefore_of_not_send leg activation other, pure_bind,
    if_neg Bool.false_ne_true, begin_of_not_send leg other, Engine.bind_of_ok begun]
  rfl

theorem advance_of_next (fetched : leg.fetch activation offset machine = .ok node machine)
    (other : ∀ literal arity, node.instruction ≠ .send literal arity) {next : Activation}
    (begun : activation.begin offset node.instruction machine = .ok (.done .next next) after) :
    leg.advance activation offset machine = .ok (.turned (.on next node.next)) after := by
  rw [advance_of_done fetched other begun]
  cases leg <;> rfl

/-- A turn whose instruction calls goes as far as its call. -/
theorem advance_of_call (fetched : leg.fetch activation offset machine = .ok node machine)
    (other : ∀ literal arity, node.instruction ≠ .send literal arity) {made : Call}
    {next : Activation} {reply : Reply}
    (begun : activation.begin offset node.instruction machine =
      .ok (.call made next reply) after) :
    leg.advance activation offset machine = .ok (.call made next node.next reply) after := by
  rw [advance, Engine.bind_of_ok fetched, stopsBefore_of_not_send leg activation other, pure_bind,
    if_neg Bool.false_ne_true, begin_of_not_send leg other, Engine.bind_of_ok begun]
  rfl

theorem advance_of_error (fetched : leg.fetch activation offset machine = .ok node machine)
    (other : ∀ literal arity, node.instruction ≠ .send literal arity) {abrupt : Abrupt}
    (failed : activation.begin offset node.instruction machine = .error abrupt after) :
    leg.advance activation offset machine = .error abrupt after := by
  rw [advance, Engine.bind_of_ok fetched, stopsBefore_of_not_send leg activation other, pure_bind,
    if_neg Bool.false_ne_true, begin_of_not_send leg other, Engine.bind_of_error failed]

end Leg

/-! ### Resolving -/

namespace Heap

variable {heap : Heap} {method : MethodId} {offset length : Nat}
  {instruction resolution : Instruction}

/-- What is put in the place of an instruction is to be run there. -/
theorem instructionAt_patch (sited : heap.siteCount method = (heap.methods.get method).code.size)
    (encoded : heap.code.encoded method offset = .ok (instruction, length)) :
    (heap.modifySite method offset ({ · with patch := some resolution })).instructionAt method
      offset = .ok (resolution, length) := by
  have within : offset < heap.siteCount method :=
    Nat.lt_of_lt_of_eq (lt_size_of_decodeAt encoded) sited.symm
  have decoded : decodeAt (heap.methods.get method).code offset = .ok (instruction, length) :=
    encoded
  have patched : ((heap.modifySite method offset ({ · with patch := some resolution })).states.get
      method).site offset = { (heap.states.get method).site offset with
        patch := some resolution } := site_modifySite_self within _
  rw [instructionAt, MethodState.instructionAt, patched,
    show (heap.modifySite method offset _).methods = heap.methods from rfl, decoded]
  rfl

end Heap

namespace Machine

/-- Nothing but the states of methods may have changed. -/
def Relearns (before after : Machine) : Prop :=
  ∃ states, after = { before with heap := { before.heap with states } }

theorem Relearns.modifyState {before : Machine} (method : MethodId)
    (change : MethodState → MethodState) :
    before.Relearns { before with heap := before.heap.modifyState method change } :=
  ⟨_, rfl⟩

theorem Relearns.trans {first second third : Machine} (left : first.Relearns second)
    (right : second.Relearns third) : first.Relearns third := by
  obtain ⟨states, rfl⟩ := left
  obtain ⟨others, rfl⟩ := right
  exact ⟨others, rfl⟩

end Machine

theorem Engine.relearns_refreshThreaded {method : MethodId} {offset : Nat}
    {before after : Machine} (ran : refreshThreaded method offset before = .ok () after) :
    before.Relearns after := by
  rw [refreshThreaded] at ran
  rcases (looks_instructionAt method offset).reads before with ⟨found, same⟩ | ⟨abrupt, failed⟩
  · rw [bind_of_ok same] at ran
    cases ran
    exact .modifyState _ _
  · rw [bind_of_error failed] at ran
    cases ran

/-- To put another instruction in its place is all that an instruction with a resolution does. -/
theorem Activation.begin_of_resolved {activation : Activation} {offset : Nat}
    {instruction resolution : Instruction} {machine : Machine}
    (resolved : machine.heap.code.resolution? activation.method instruction = some resolution) :
    activation.begin offset instruction machine = .ok (.done .retry activation)
      { machine with
        heap := machine.heap.modifySite activation.method offset
          ({ · with patch := some resolution }) } := by
  have begins : activation.begin offset instruction = (do
      let made ← activation.execute noCall offset instruction
      return .done made.1 made.2) := by
    rcases Code.resolution?_cases resolved with ⟨_, _, _, rfl, -, -⟩ | ⟨access, -⟩
    · rfl
    · cases instruction <;> first | rfl | cases access
  rw [begins, Engine.bind_of_ok (execute_of_resolved noCall resolved)]
  rfl

namespace Leg

variable {leg : Leg} {activation : Activation} {offset length : Nat} {machine after : Machine}
  {instruction resolution : Instruction} {node : ThreadedNode}

/-- A turn reads what is to be run, if threaded code does not hold anything older. -/
theorem fetch_of_current (leg : Leg)
    (found : machine.heap.instructionAt activation.method offset = .ok (instruction, length))
    (current : ∀ hybrid, leg = .threaded true hybrid →
      machine.heap.Current activation.method offset) :
    leg.fetch activation offset machine = .ok ⟨instruction, offset + length⟩ machine := by
  have read := Engine.instructionAt_of_ok found
  have same {node : ThreadedNode} (reads : machine.heap.Reads activation.method offset node) :
      node = ⟨instruction, offset + length⟩ := by
    obtain ⟨size, again, next⟩ := reads
    cases node
    cases again.symm.trans found
    cases next
    rfl
  cases leg with
  | sequential hybrid => exact Engine.bind_of_ok read
  | threaded hasProgram hybrid =>
    rcases activation.fetchThreaded_cases hasProgram offset machine with
      ⟨node, fetched, reads | ⟨rfl, held⟩⟩ | ⟨abrupt, -, failed, -⟩
    · exact same reads ▸ fetched
    · exact same (current hybrid rfl node held) ▸ fetched
    · cases failed.symm.trans read

/-- A turn that only puts a resolution in place is taken again, and then reads the resolution. -/
theorem advance_of_patch (coherent : machine.heap.Coherent)
    (sited : machine.heap.siteCount activation.method =
      (machine.heap.methods.get activation.method).code.size)
    (encoded : machine.heap.code.encoded activation.method offset = .ok (instruction, length))
    (fetched : leg.fetch activation offset machine = .ok node machine)
    (unresolved : node.instruction = instruction)
    (other : ∀ literal arity, instruction ≠ .send literal arity)
    (resolved : machine.heap.code.resolution? activation.method instruction = some resolution)
    (begun : activation.begin offset instruction machine = .ok (.done .retry activation)
      (machine.change (.patch activation.method offset resolution))) :
    ∃ after, leg.advance activation offset machine = .ok (.turned (.on activation offset)) after ∧
      (machine.change (.patch activation.method offset resolution)).Hides after ∧
      machine.Relearns after ∧
      leg.fetch activation offset after = .ok ⟨resolution, offset + length⟩ after := by
  obtain ⟨_, next⟩ := node
  cases unresolved
  have coherent : (machine.change (.patch activation.method offset resolution)).heap.Coherent :=
    coherent.patch encoded resolved
  have found : (machine.change (.patch activation.method offset resolution)).heap.instructionAt
      activation.method offset = .ok (resolution, length) := Heap.instructionAt_patch sited encoded
  have learned : machine.Relearns (machine.change (.patch activation.method offset resolution)) :=
    .modifyState _ _
  have turned := advance_of_done fetched other begun
  cases leg with
  | sequential hybrid =>
    exact ⟨_, turned, .refl coherent, learned, fetch_of_current _ found fun _ same => by cases same⟩
  | threaded hasProgram hybrid =>
    cases hasProgram with
    | false =>
      exact ⟨_, turned, .refl coherent, learned,
        fetch_of_current _ found fun _ same => by cases same⟩
    | true =>
      obtain ⟨after, refreshed, hides, current⟩ :=
        Engine.refreshThreaded_hides coherent (.encoded encoded)
      refine ⟨after, ?_, hides, learned.trans (Engine.relearns_refreshThreaded refreshed), ?_⟩
      · rw [turned]
        have followed : (threaded true hybrid).follow activation offset next .retry
            (machine.change (.patch activation.method offset resolution)) =
              .ok (.on activation offset) after :=
          Engine.bind_of_ok refreshed
        exact Engine.bind_of_ok followed
      · refine fetch_of_current _ ?_ fun _ _ => current
        rw [hides.read (·.instructionAt activation.method offset) fun heap =>
          heap.instructionAt_observed activation.method offset]
        exact found

/-- The first turn of an access only puts its resolution in its place. -/
theorem advance_of_resolved (coherent : machine.heap.Coherent)
    (sited : machine.heap.siteCount activation.method =
      (machine.heap.methods.get activation.method).code.size)
    (encoded : machine.heap.code.encoded activation.method offset = .ok (instruction, length))
    (fetched : leg.fetch activation offset machine = .ok node machine)
    (unresolved : node.instruction = instruction)
    {access : Access} (accesses : instruction.access? = some access)
    (resolved : machine.heap.code.resolution? activation.method instruction = some resolution) :
    ∃ after, leg.advance activation offset machine = .ok (.turned (.on activation offset)) after ∧
      machine.Relearns after ∧
      leg.fetch activation offset after = .ok ⟨resolution, offset + length⟩ after := by
  obtain ⟨after, turned, -, learned, again⟩ := advance_of_patch coherent sited encoded fetched
    unresolved (fun _ _ same => by subst same; cases accesses) resolved
    (Activation.begin_of_resolved resolved)
  exact ⟨after, turned, learned, again⟩

/-- An access that has a resolution has been resolved before its turn or is resolved by it. -/
theorem resolves (leg : Leg) (coherent : machine.heap.Coherent)
    (sited : machine.heap.siteCount activation.method =
      (machine.heap.methods.get activation.method).code.size)
    (encoded : machine.heap.code.encoded activation.method offset = .ok (instruction, length))
    {access : Access} (accesses : instruction.access? = some access)
    (resolved : machine.heap.code.resolution? activation.method instruction = some resolution) :
    ∃ after, machine.Relearns after ∧
      leg.fetch activation offset after = .ok ⟨resolution, offset + length⟩ after ∧
      (after = machine ∨ ∃ node, leg.fetch activation offset machine = .ok node machine ∧
        node.instruction = instruction ∧
          leg.advance activation offset machine = .ok (.turned (.on activation offset)) after) := by
  obtain ⟨node, fetched, next, same | patched⟩ := leg.fetch_of_encoded coherent encoded
  · obtain ⟨after, turned, learned, again⟩ :=
      advance_of_resolved coherent sited encoded fetched same accesses resolved
    exact ⟨after, learned, again, .inr ⟨node, fetched, same, turned⟩⟩
  · cases resolved.symm.trans patched
    refine ⟨machine, ⟨_, rfl⟩, ?_, .inl rfl⟩
    rw [fetched, ← next]

end Leg

/-- An access that has no resolution is an error. -/
theorem Activation.begin_of_unresolved {activation : Activation} {machine : Machine}
    {offset : Nat} {instruction : Instruction} {access : Access}
    (accesses : instruction.access? = some access)
    (unresolved : resolvedAccess? (machine.heap.methods.get activation.method).scope
      instruction = none) :
    activation.begin offset instruction machine = .error (.error (.unresolvedVariable
      (machine.heap.signatureText (.method activation.method)) offset)) machine := by
  have accessed : activation.begin offset instruction = (do
      let made ← activation.resolveAccess offset instruction
      return .done made.1 made.2) := by
    cases instruction <;> cases accesses <;> rfl
  have scope : Engine.heapValue (fun heap => (heap.methods.get activation.method).scope)
      machine = .ok (machine.heap.methods.get activation.method).scope machine := rfl
  rw [accessed, resolveAccess, bind_assoc, Engine.bind_of_ok scope, unresolved]
  rfl

/-! ### Reading and storing -/

/-- At level zero the own context is found, on any machine. -/
theorem Frame.contextAt_zero_iff {frame : Frame} {machine after : Machine} {context : ContextId} :
    frame.contextAt 0 machine = .ok context after ↔
      frame.context = some context ∧ after = machine := by
  rw [contextAt, if_pos rfl]
  cases frame.context with
  | none =>
    constructor
    · intro found
      cases found
    · rintro ⟨own, -⟩
      cases own
  | some own =>
    constructor
    · intro found
      cases found
      exact ⟨rfl, rfl⟩
    · rintro ⟨same, rfl⟩
      cases same
      rfl

/-- The slot that an access reaches holds a value. -/
inductive Frame.Finds (frame : Frame) (machine : Machine) : VariableAccess → Value → Prop
  | frame {slot : UInt8} {value : Value} (held : frame.slots[slot.toNat]? = some value) :
    Finds frame machine (.ownFrame slot) value
  | own {slot : UInt8} {context : ContextId} {value : Value}
    (found : frame.contextAt 0 machine = .ok context machine)
    (held : (machine.heap.contexts.get context).slots[slot.toNat]? = some value) :
    Finds frame machine (.ownInner slot) value
  | outer {slot level : UInt8} {context : ContextId} {value : Value}
    (found : frame.contextAt level.toNat machine = .ok context machine)
    (held : (machine.heap.contexts.get context).slots[slot.toNat]? = some value) :
    Finds frame machine (.outerInner slot level) value

/-- What a store into the slot that an access reaches does. -/
def Frame.storing (frame : Frame) (machine : Machine) (value : Value) : VariableAccess → Deed
  | .ownFrame slot => .storeFrame slot.toNat value
  | .ownInner slot => .store slot value (frame.contextAt 0 machine)
  | .outerInner slot level => .store slot value (frame.contextAt level.toNat machine)

/-- The machine after a deed that makes no block. -/
def Deed.machine (deed : Deed) (before : Machine) : Machine :=
  { before with
    heap := { before.heap with contexts := (deed.scene before.heap.scene).contexts } }

namespace Activation

/-- A resolved access that pushes pushes what the slot holds. -/
theorem begin_push (activation : Activation) (offset : Nat) {machine : Machine}
    {reached : VariableAccess} {value : Value}
    (finds : activation.frame.Finds machine reached value) :
    activation.begin offset reached.push machine =
      match activation.stack.push? value with
      | some stack => .ok (.done .next { activation with stack }) machine
      | none => .error (.stackFault activation.method) machine := by
  have pushes {read : Engine Value} (found : read machine = .ok value machine) :
      (do
        let made ← (do return (Flow.next, ← activation.push (← read)) :
          Engine (Flow × Activation))
        return Attempt.done made.1 made.2 : Engine Attempt) machine =
      match activation.stack.push? value with
      | some stack => .ok (.done .next { activation with stack }) machine
      | none => .error (.stackFault activation.method) machine := by
    rw [bind_assoc, Engine.bind_of_ok found, push]
    cases activation.stack.push? value <;> rfl
  have inner {slot : UInt8} {level : Nat} {context : ContextId}
      (found : activation.frame.contextAt level machine = .ok context machine)
      (held : (machine.heap.contexts.get context).slots[slot.toNat]? = some value) :
      (do
        let made ← (do
          let context ← activation.frame.contextAt level
          return (Flow.next, ← activation.push (← Frame.getInner context slot.toNat)) :
          Engine (Flow × Activation))
        return Attempt.done made.1 made.2 : Engine Attempt) machine =
      match activation.stack.push? value with
      | some stack => .ok (.done .next { activation with stack }) machine
      | none => .error (.stackFault activation.method) machine := by
    have read : Frame.getInner context slot.toNat machine = .ok value machine := by
      show Engine.orFault (machine.heap.contexts.get context).slots[slot.toNat]? machine = _
      rw [held]
      rfl
    rw [bind_assoc, Engine.bind_of_ok found]
    exact pushes read
  cases finds with
  | frame held =>
    refine pushes ?_
    rw [Frame.get, held]
    rfl
  | own found held => exact inner found held
  | outer found held => exact inner found held

end Activation

/-- Stores into the slot that an access reaches. -/
def Frame.store (frame : Frame) (value : Value) : VariableAccess → Engine Frame
  | .ownFrame slot => frame.set slot.toNat value
  | .ownInner slot => do
    setInner (← frame.contextAt 0) slot.toNat value
    return frame
  | .outerInner slot level => do
    setInner (← frame.contextAt level.toNat) slot.toNat value
    return frame

/-- A store does its deed where a slot is found. -/
theorem Frame.store_of_finds {frame : Frame} {machine : Machine} {reached : VariableAccess}
    {old : Value} (finds : frame.Finds machine reached old) (value : Value) :
    frame.store value reached machine =
      .ok ((frame.storing machine value reached).frame frame)
        ((frame.storing machine value reached).machine machine) := by
  have inner {slot : UInt8} {context : ContextId} {level : Nat}
      (found : frame.contextAt level machine = .ok context machine)
      (held : (machine.heap.contexts.get context).slots[slot.toNat]? = some old) :
      (do
        setInner (← frame.contextAt level) slot.toNat value
        return frame : Engine Frame) machine =
      .ok ((Deed.store slot value (frame.contextAt level machine)).frame frame)
        ((Deed.store slot value (frame.contextAt level machine)).machine machine) := by
    have within := (Array.getElem?_eq_some_iff.mp held).1
    have stored : setInner context slot.toNat value machine =
        .ok () ((Deed.storeContext context slot.toNat value).machine machine) := by
      rw [setInner, Engine.bind_of_ok
        (show Engine.heapValue _ machine = .ok (machine.heap.contexts.get context).slots.size
          machine from rfl), if_pos within]
      rfl
    rw [Engine.bind_of_ok found, Engine.bind_of_ok stored, found]
    rfl
  cases finds with
  | frame held =>
    have within := (Array.getElem?_eq_some_iff.mp held).1
    show (if _ < frame.slots.size then _ else _ : Engine Frame) machine = _
    rw [if_pos within]
    rfl
  | own found held => exact inner found held
  | outer found held => exact inner found held

namespace Activation

variable {activation : Activation} {machine : Machine} {offset : Nat} {reached : VariableAccess}

theorem begin_pop (activation : Activation) (offset : Nat) (reached : VariableAccess) :
    activation.begin offset reached.pop = (do
      let popped ← activation.pop
      let frame ← popped.2.frame.store popped.1 reached
      return .done .next { popped.2 with frame }) := by
  cases reached with
  | ownFrame slot =>
    simp only [VariableAccess.pop, begin, execute, bind_assoc, pure_bind]
    rfl
  | ownInner slot =>
    simp only [VariableAccess.pop, begin, execute, Frame.store, bind_assoc, pure_bind]
    rfl
  | outerInner slot level =>
    simp only [VariableAccess.pop, begin, execute, Frame.store, bind_assoc, pure_bind]

theorem begin_clear {instruction : Instruction} (clears : reached.nil? = some instruction) :
    activation.begin offset instruction = (do
      let frame ← activation.frame.store .nil reached
      return .done .next { activation with frame }) := by
  cases reached <;> cases clears
  · simp only [begin, execute, bind_assoc, pure_bind]
    rfl
  · simp only [begin, execute, Frame.store, bind_assoc, pure_bind]

/-- The deed of a store is that of its instruction. -/
theorem deed_pop {value : Value} {stack : OperandStack}
    (popped : activation.stack.pop? = some (value, stack)) :
    activation.deed machine reached.pop = activation.frame.storing machine value reached := by
  cases reached <;> simp only [VariableAccess.pop, deed, popped] <;> rfl

theorem deed_clear {instruction : Instruction} (clears : reached.nil? = some instruction) :
    activation.deed machine instruction = activation.frame.storing machine .nil reached := by
  cases reached <;> cases clears <;> rfl

end Activation

theorem Access.not_send {usage : Usage} {reached : VariableAccess} {resolution : Instruction}
    (reaches : reach? usage reached = some resolution) (literal : UInt8) (arity : Arity) :
    resolution ≠ .send literal arity := by
  rintro rfl
  cases usage <;> cases reached <;> cases reaches

/-! ### Steps -/

namespace State

variable {state : State} {leg : Leg} {live : Live}

theorem step_of_ok (turns : state.focus = .turn leg live) {step : TurnStep} {after : Machine}
    (advanced : leg.advance live.activation live.offset state.machine = .ok step after) :
    state.step = some (State.advanced leg live state.waiting step after) := by
  simp only [State.step, turns, State.after, advanced]

theorem step_of_error (turns : state.focus = .turn leg live) {abrupt : Abrupt} {after : Machine}
    (failed : leg.advance live.activation live.offset state.machine = .error abrupt after) :
    state.step = some (abandoned live state.waiting abrupt after) := by
  simp only [State.step, turns, State.after, failed]

theorem deed_of_fetch (turns : state.focus = .turn leg live) {node : ThreadedNode}
    {after : Machine}
    (fetched : leg.fetch live.activation live.offset state.machine = .ok node after) :
    state.deed = live.activation.deed state.machine node.instruction := by
  simp only [State.deed, turns, Leg.deed, fetched]

end State

end ObjectMachine
