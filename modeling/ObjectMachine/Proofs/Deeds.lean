/-
This file says what a step does to closures. A turn does one deed: nothing, the making of a
block, or one store into a frame or a context. A step carries on, starts an activation or ends
the innermost one; every step is one of these, and so what holds at the start and is kept by
each of them holds whenever code runs.
-/

import ObjectMachine.Proofs.Scenes

namespace ObjectMachine

/-! ### Deeds -/

/-- What a turn does to blocks and variables. -/
inductive Deed
  | nothing
  | makeBlock (block : Block)
  | storeFrame (slot : Nat) (value : Value)
  | storeContext (context : ContextId) (slot : Nat) (value : Value)

namespace Deed

def scene (before : Scene) : Deed → Scene
  | .makeBlock block => { before with blocks := before.blocks.add block }
  | .storeContext context slot value =>
    { before with
      contexts := before.contexts.modify context fun row =>
        { row with slots := row.slots.setIfInBounds slot value } }
  | .nothing | .storeFrame .. => before

def frame (before : Frame) : Deed → Frame
  | .storeFrame slot value => { before with slots := before.slots.setIfInBounds slot value }
  | .nothing | .makeBlock _ | .storeContext .. => before

/-- The store into a context that was found. -/
def store (slot : UInt8) (value : Value) : EStateM.Result Abrupt Machine ContextId → Deed
  | .ok context _ => .storeContext context slot.toNat value
  | .error _ _ => .nothing

theorem frame_store (slot : UInt8) (value : Value)
    (found : EStateM.Result Abrupt Machine ContextId) (before : Frame) :
    (store slot value found).frame before = before := by
  cases found <;> rfl

end Deed

namespace Activation

/-- The method of a block that a literal stands for. -/
def blockMethod? (activation : Activation) (machine : Machine) (literal : UInt8) :
    Option MethodId :=
  match (machine.heap.methods.get activation.method).literal? literal with
  | some (.invokable (.method method)) => some method
  | _ => none

/-- What an instruction is to do in an activation. -/
def deed (activation : Activation) (machine : Machine) : Instruction → Deed
  | .pushBlock literal captures =>
    match activation.blockMethod? machine literal with
    | some method => .makeBlock ⟨method, if captures then activation.frame.context else none⟩
    | none => .nothing
  | .popFrame slot =>
    match activation.stack.pop? with
    | some (value, _) => .storeFrame slot.toNat value
    | none => .nothing
  | .nilFrame slot => .storeFrame slot.toNat .nil
  | .popInner slot level =>
    match activation.stack.pop? with
    | some (value, _) => .store slot value (activation.frame.contextAt level.toNat machine)
    | none => .nothing
  | .nilInner slot => .store slot .nil (activation.frame.contextAt 0 machine)
  | _ => .nothing

/-- Which instructions order a deed, and with what in it. -/
inductive Orders (activation : Activation) (machine : Machine) : Instruction → Deed → Prop
  | nothing (instruction : Instruction) : Orders activation machine instruction .nothing
  | makeBlock (literal : UInt8) (captures : Bool) {method : MethodId}
      (found : activation.blockMethod? machine literal = some method) :
    Orders activation machine (.pushBlock literal captures)
      (.makeBlock ⟨method, if captures then activation.frame.context else none⟩)
  | popFrame (slot : UInt8) (value : Value) :
    Orders activation machine (.popFrame slot) (.storeFrame slot.toNat value)
  | nilFrame (slot : UInt8) :
    Orders activation machine (.nilFrame slot) (.storeFrame slot.toNat .nil)
  | popInner (slot level : UInt8) (value : Value) {context : ContextId} {after : Machine}
      (found : activation.frame.contextAt level.toNat machine = .ok context after) :
    Orders activation machine (.popInner slot level) (.storeContext context slot.toNat value)
  | nilInner (slot : UInt8) {context : ContextId} {after : Machine}
      (found : activation.frame.contextAt 0 machine = .ok context after) :
    Orders activation machine (.nilInner slot) (.storeContext context slot.toNat .nil)

theorem orders_deed (activation : Activation) (machine : Machine) (instruction : Instruction) :
    activation.Orders machine instruction (activation.deed machine instruction) := by
  cases instruction with
  | pushBlock literal captures =>
    rw [deed]
    split
    · rename_i method found
      exact .makeBlock literal captures found
    · exact .nothing _
  | popFrame slot =>
    rw [deed]
    split
    · exact .popFrame slot _
    · exact .nothing _
  | nilFrame slot => exact .nilFrame slot
  | popInner slot level =>
    rw [deed]
    split
    · rename_i value _ _
      cases found : activation.frame.contextAt level.toNat machine with
      | ok context after => exact .popInner slot level value found
      | error abrupt after => exact .nothing _
    · exact .nothing _
  | nilInner slot =>
    rw [deed]
    cases found : activation.frame.contextAt 0 machine with
    | ok context after => exact .nilInner slot found
    | error abrupt after => exact .nothing _
  | _ => exact .nothing _

/-- A return from the home finds its value and its target. -/
def Targets (activation : Activation) (machine : Machine) (instruction : Instruction)
    (block : BlockId) (value : Value) (target : ContextId) : Prop :=
  ∃ level stack, instruction = .returnNonLocal level ∧ level ≠ 0 ∧
    activation.stack.pop? = some (value, stack) ∧
    activation.frame.blockAt level.toNat machine = .ok block machine ∧
    (machine.heap.blocks.get block).context = some target

/-- How an instruction may fail. -/
def Fails (activation : Activation) (machine : Machine) (instruction : Instruction)
    (abrupt : Abrupt) : Prop :=
  abrupt.Ordinary ∨ ∃ block value target, abrupt = .nonLocalReturn value target ∧
    activation.Targets machine instruction block value target ∧
    machine.heap.isHomeRunning block = true

/-- What is so of an instruction run up to its call. -/
def Does (activation : Activation) (machine : Machine) (instruction : Instruction) :
    EStateM.Result Abrupt Machine Attempt → Prop :=
  Engine.Ends (Attempt.In activation.method
      ((activation.deed machine instruction).frame activation.frame))
    (activation.Fails machine instruction)
    ((activation.deed machine instruction).scene machine.heap.scene)

/-! ### Instructions -/

open Engine

section

variable {activation : Activation} {machine : Machine} {instruction : Instruction}
  {method : MethodId} {frame : Frame} {offset : Nat}

theorem ordinary_stackFault (method : MethodId) : (Abrupt.stackFault method).Ordinary :=
  fun _ _ same => by cases same

theorem ordinary_indexFault : Abrupt.indexFault.Ordinary :=
  fun _ _ same => by cases same

theorem pop_of_some {value : Value} {stack : OperandStack}
    (popped : activation.stack.pop? = some (value, stack)) :
    activation.pop machine = .ok (value, { activation with stack }) machine := by
  rw [pop, popped]
  rfl

theorem pop_of_none (empty : activation.stack.pop? = none) :
    activation.pop machine = .error (.stackFault activation.method) machine := by
  rw [pop, empty]
  rfl

theorem push_of_some {value : Value} {stack : OperandStack}
    (pushed : activation.stack.push? value = some stack) :
    activation.push value machine = .ok { activation with stack } machine := by
  rw [push, pushed]
  rfl

theorem deed_of_plain (plain : instruction.touchesClosures = false) :
    activation.deed machine instruction = .nothing := by
  cases instruction with
  | pushBlock | popFrame | popInner | nilFrame | nilInner => cases plain
  | _ => rfl

/-- An instruction that does nothing. -/
theorem does_of_gentle {attempt : Engine Attempt}
    (plain : instruction.touchesClosures = false)
    (gentle : Gentle (Attempt.In activation.method activation.frame) attempt) :
    activation.Does machine instruction (attempt machine) := by
  rw [Does, deed_of_plain plain]
  have ends := gentle.quiet machine
  generalize attempt machine = result at ends
  cases ends with
  | ok same known => exact .ok same known
  | error same ordinary => exact .error same (.inl ordinary)

/-- An instruction that does not call. -/
theorem does_of_execute {computation : Engine (Flow × Activation)}
    {deed : Deed} (same : activation.deed machine instruction = deed)
    (ends : Ends (fun done => done.2.In activation.method (deed.frame activation.frame))
      Abrupt.Ordinary (deed.scene machine.heap.scene) (computation machine)) :
    activation.Does machine instruction
      ((do
        let made ← computation
        return Attempt.done made.1 made.2) machine) := by
  subst same
  refine Ends.bind (ends.weaken fun _ => .inl) fun done after scene here => ?_
  exact .ok scene here

variable (activation machine offset)

theorem does_popFrame (slot : UInt8) :
    activation.Does machine (.popFrame slot)
      (activation.begin offset (.popFrame slot) machine) := by
  cases popped : activation.stack.pop? with
  | none =>
    refine does_of_execute (show _ = Deed.nothing by simp only [deed, popped]) ?_
    rw [execute, bind_of_error (pop_of_none popped)]
    exact .error rfl (ordinary_stackFault _)
  | some found =>
    obtain ⟨value, stack⟩ := found
    refine does_of_execute
      (show _ = Deed.storeFrame slot.toNat value by simp only [deed, popped]) ?_
    rw [execute, bind_of_ok (pop_of_some popped)]
    dsimp only [Frame.set]
    split
    · exact .ok rfl ⟨rfl, rfl⟩
    · exact .error rfl ordinary_indexFault

theorem does_nilFrame (slot : UInt8) :
    activation.Does machine (.nilFrame slot)
      (activation.begin offset (.nilFrame slot) machine) := by
  refine does_of_execute rfl ?_
  rw [execute]
  dsimp only [Frame.set]
  split
  · exact .ok rfl ⟨rfl, rfl⟩
  · exact .error rfl ordinary_indexFault

/-- A store into a context, which is a fault outside of its slots. -/
theorem ends_setInner (context : ContextId) (slot : Nat) (value : Value) :
    Ends (fun _ => True) Abrupt.Ordinary
      ((Deed.storeContext context slot value).scene machine.heap.scene)
      (Frame.setInner context slot value machine) := by
  rw [Frame.setInner, bind_of_ok (show heapValue _ machine = .ok _ machine from rfl)]
  split
  · exact .ok rfl trivial
  · rename_i beyond
    have fixed : (machine.heap.contexts.get context).slots.setIfInBounds slot value =
        (machine.heap.contexts.get context).slots :=
      Array.setIfInBounds_eq_of_size_le (Nat.le_of_not_lt beyond)
    have same : machine.heap.contexts.modify context (fun row =>
        { row with slots := row.slots.setIfInBounds slot value }) = machine.heap.contexts :=
      Table.modify_of_fixed _ _ _ (by simp only [fixed])
    refine .error ?_ ordinary_indexFault
    rw [Deed.scene, show machine.heap.scene.contexts = machine.heap.contexts from rfl, same]
    rfl

/-- A store into a context that is looked for first. -/
theorem ends_storeInner (level : Nat) (slot : UInt8) (value : Value) :
    Ends (fun _ => True) Abrupt.Ordinary
      ((Deed.store slot value (activation.frame.contextAt level machine)).scene
        machine.heap.scene)
      ((do Frame.setInner (← activation.frame.contextAt level) slot.toNat value) machine) := by
  have looks := Frame.looks_contextAt activation.frame level
  cases found : activation.frame.contextAt level machine with
  | ok context after =>
    rw [bind_of_ok found, looks.of_ok found]
    exact ends_setInner machine context slot.toNat value
  | error abrupt after =>
    obtain ⟨rfl, ordinary⟩ := looks.of_error found
    rw [bind_of_error found]
    exact .error rfl ordinary

theorem does_popInner (slot level : UInt8) :
    activation.Does machine (.popInner slot level)
      (activation.begin offset (.popInner slot level) machine) := by
  cases popped : activation.stack.pop? with
  | none =>
    refine does_of_execute (show _ = Deed.nothing by simp only [deed, popped]) ?_
    rw [execute, bind_of_error (pop_of_none popped)]
    exact .error rfl (ordinary_stackFault _)
  | some found =>
    obtain ⟨value, stack⟩ := found
    refine does_of_execute (show _ = Deed.store slot value
      (activation.frame.contextAt level.toNat machine) by simp only [deed, popped]) ?_
    rw [execute, bind_of_ok (pop_of_some popped)]
    dsimp only
    rw [← bind_assoc]
    refine (ends_storeInner activation machine level.toNat slot value).bind
      fun _ after same _ => .ok same ⟨rfl, ?_⟩
    rw [Deed.frame_store]

theorem does_nilInner (slot : UInt8) :
    activation.Does machine (.nilInner slot)
      (activation.begin offset (.nilInner slot) machine) := by
  refine does_of_execute rfl ?_
  rw [execute, ← bind_assoc]
  refine (ends_storeInner activation machine 0 slot .nil).bind
    fun _ after same _ => .ok same ⟨rfl, ?_⟩
  rw [deed, Deed.frame_store]

theorem ends_makeBlock (literal : UInt8) (captures : Bool) :
    Ends (fun _ => True) Abrupt.Ordinary
      ((activation.deed machine (.pushBlock literal captures)).scene machine.heap.scene)
      (activation.makeBlock literal captures machine) := by
  have read : activation.literal? literal machine =
      .ok ((machine.heap.methods.get activation.method).literal? literal) machine := rfl
  rw [makeBlock, bind_of_ok read, deed, blockMethod?]
  cases (machine.heap.methods.get activation.method).literal? literal with
  | none => exact (gentle_raise rfl).quiet machine
  | some value =>
    cases value with
    | invokable target =>
      cases target with
      | method method => exact .ok rfl trivial
      | primitive primitive => exact (gentle_raise rfl).quiet machine
    | _ => exact (gentle_raise rfl).quiet machine

theorem does_pushBlock (literal : UInt8) (captures : Bool) :
    activation.Does machine (.pushBlock literal captures)
      (activation.begin offset (.pushBlock literal captures) machine) := by
  have frame : (activation.deed machine (.pushBlock literal captures)).frame activation.frame =
      activation.frame := by
    rw [deed]
    split <;> rfl
  refine does_of_execute rfl ?_
  rw [execute, frame]
  refine (ends_makeBlock activation machine literal captures).bind fun value after same _ => ?_
  have pushes : Gentle (fun done => done.2.In activation.method activation.frame)
      (do return (Flow.next, ← activation.push value)) :=
    .bind (gentle_push (In.refl activation) value) fun _ here => .pure here
  rw [← same]
  exact pushes.quiet after

theorem does_returnNonLocal (level : UInt8) :
    activation.Does machine (.returnNonLocal level)
      (activation.begin offset (.returnNonLocal level) machine) := by
  show Ends (Attempt.In activation.method activation.frame) _ machine.heap.scene
    (activation.returnNonLocalAttempt level machine)
  rw [returnNonLocalAttempt]
  cases popped : activation.stack.pop? with
  | none =>
    rw [bind_of_error (pop_of_none popped)]
    exact .error rfl (.inl (ordinary_stackFault _))
  | some found =>
    obtain ⟨value, stack⟩ := found
    rw [bind_of_ok (pop_of_some popped)]
    dsimp only
    split
    · exact .ok rfl ⟨rfl, rfl⟩
    · rename_i outer
      have looks := Frame.looks_blockAt activation.frame level.toNat
      cases found : activation.frame.blockAt level.toNat machine with
      | error abrupt after =>
        obtain ⟨rfl, ordinary⟩ := looks.of_error found
        rw [bind_of_error found]
        exact .error rfl (.inl ordinary)
      | ok block after =>
        rw [bind_of_ok found, looks.of_ok found]
        rw [looks.of_ok found] at found
        rw [bind_of_ok (show heapValue _ machine = .ok _ machine from rfl)]
        cases captured : (machine.heap.blocks.get block).context with
        | none => exact .error rfl (.inl fun _ _ same => by cases same)
        | some target =>
          dsimp only
          rw [bind_of_ok (show heapValue _ machine = .ok _ machine from rfl)]
          split
          · rename_i running
            exact .error rfl (.inr ⟨block, value, target, rfl,
              ⟨level, stack, rfl, outer, popped, found, captured⟩, running⟩)
          · have gentle : Gentle (Attempt.In activation.method activation.frame) (do
                let made ← ({ activation with stack } : Activation).escapeCall
                return .call made { activation with stack } .answer) :=
              .bind mild_escapeCall fun _ _ => .pure ⟨rfl, rfl⟩
            exact (gentle.quiet machine).weaken fun _ => .inl

end

/-- Every instruction does its deed. -/
theorem does_begin (activation : Activation) (machine : Machine) (offset : Nat)
    (instruction : Instruction) :
    activation.Does machine instruction (activation.begin offset instruction machine) := by
  cases instruction with
  | pushBlock literal captures => exact does_pushBlock activation machine offset literal captures
  | popFrame slot => exact does_popFrame activation machine offset slot
  | popInner slot level => exact does_popInner activation machine offset slot level
  | nilFrame slot => exact does_nilFrame activation machine offset slot
  | nilInner slot => exact does_nilInner activation machine offset slot
  | returnNonLocal level => exact does_returnNonLocal activation machine offset level
  | _ => exact does_of_gentle rfl (gentle_begin (In.refl activation) rfl)

theorem does_beginThreaded (activation : Activation) (machine : Machine) (offset : Nat)
    (instruction : Instruction) :
    activation.Does machine instruction
      (activation.beginThreaded offset instruction machine) := by
  cases instruction with
  | send literal arity =>
    exact does_of_gentle rfl (gentle_sendInlinedAttempt (In.refl activation) offset literal arity)
  | _ =>
    unfold beginThreaded
    exact does_begin activation machine offset _

end Activation

end ObjectMachine
