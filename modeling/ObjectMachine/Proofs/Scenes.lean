/-
This file says what the parts of the interpreter do to closures. The scene of a heap is all
that blocks live on: the contexts, the blocks and the methods. Almost everything leaves the
scene and the registers alone, keeps the frame it works in and fails, if it does, in an
ordinary way, and much of it only looks at the machine; what is left are the instructions that
make a block or store into a variable and the return from a home, and they do one thing to the
scene each.
-/

import ObjectMachine.Proofs.Registers
import ObjectMachine.Proofs.Observation

namespace ObjectMachine

/-! ### Scenes -/

structure Scene where
  contexts : Table .contexts Context
  blocks : Table .blocks Block
  methods : Table .methods Method

def Heap.scene (heap : Heap) : Scene := ⟨heap.contexts, heap.blocks, heap.methods⟩

/-- Not the return from a home. -/
def Abrupt.Ordinary (abrupt : Abrupt) : Prop :=
  ∀ value target, abrupt ≠ .nonLocalReturn value target

namespace Engine

/-- A computation ended at a scene, with a value of which something is known or a failure. -/
inductive Ends {α : Type} (post : α → Prop) (fails : Abrupt → Prop) (scene : Scene) :
    EStateM.Result Abrupt Machine α → Prop
  | ok {value : α} {machine : Machine} (same : machine.heap.scene = scene)
    (known : post value) : Ends post fails scene (.ok value machine)
  | error {abrupt : Abrupt} {machine : Machine} (same : machine.heap.scene = scene)
    (known : fails abrupt) : Ends post fails scene (.error abrupt machine)

/-- A computation leaves the scene alone and fails in ordinary ways only. -/
def Quiet {α : Type} (post : α → Prop) (computation : Engine α) : Prop :=
  ∀ machine, Ends post Abrupt.Ordinary machine.heap.scene (computation machine)

abbrev Still {α : Type} (computation : Engine α) : Prop := Quiet (fun _ => True) computation

section

variable {α β : Type} {post : α → Prop} {fails : Abrupt → Prop} {scene : Scene}

theorem Ends.weaken {others : Abrupt → Prop} {result : EStateM.Result Abrupt Machine α}
    (ends : Ends post fails scene result) (implies : ∀ abrupt, fails abrupt → others abrupt) :
    Ends post others scene result := by
  cases ends with
  | ok same known => exact .ok same known
  | error same known => exact .error same (implies _ known)

theorem Ends.bind {postNext : β → Prop} {computation : Engine α} {next : α → Engine β}
    {machine : Machine} (ends : Ends post fails scene (computation machine))
    (follows : ∀ value machine, machine.heap.scene = scene → post value →
      Ends postNext fails scene (next value machine)) :
    Ends postNext fails scene ((computation >>= next) machine) := by
  cases ran : computation machine with
  | ok value after =>
    rw [bind_of_ok ran]
    rw [ran] at ends
    cases ends with
    | ok same known => exact follows value after same known
  | error abrupt after =>
    rw [bind_of_error ran]
    rw [ran] at ends
    cases ends with
    | error same known => exact .error same known

namespace Quiet

theorem pure {value : α} (known : post value) : Quiet post (pure value) :=
  fun _ => .ok rfl known

theorem of_ok {computation : Engine α} (quiet : Quiet post computation) {machine after : Machine}
    {value : α} (ran : computation machine = .ok value after) : post value := by
  have ends := quiet machine
  rw [ran] at ends
  cases ends with
  | ok _ known => exact known

theorem bind {postNext : β → Prop} {computation : Engine α} {next : α → Engine β}
    (quiet : Quiet post computation)
    (follows : ∀ value, post value → Quiet postNext (next value)) :
    Quiet postNext (computation >>= next) :=
  fun machine => (quiet machine).bind fun value after same known =>
    same ▸ follows value known after

end Quiet

/-! #### Scene and registers -/

/-- What leaves the scene and the registers alone, and fails in ordinary ways and not for depth. -/
structure Gentle {α : Type} (post : α → Prop) (computation : Engine α) : Prop where
  quiet : Quiet post computation
  spares : Spares computation

abbrev Mild {α : Type} (computation : Engine α) : Prop := Gentle (fun _ => True) computation

namespace Gentle

theorem pure {value : α} (known : post value) : Gentle post (pure value) :=
  ⟨.pure known, .pure⟩

theorem bind {postNext : β → Prop} {computation : Engine α} {next : α → Engine β}
    (gentle : Gentle post computation)
    (follows : ∀ value, post value → Gentle postNext (next value)) :
    Gentle postNext (computation >>= next) where
  quiet := gentle.quiet.bind fun value known => (follows value known).quiet
  spares machine := by
    cases ran : computation machine with
    | ok value after =>
      rw [bind_of_ok ran, ← gentle.spares.of_ok ran]
      exact (follows value (gentle.quiet.of_ok ran)).spares after
    | error abrupt after =>
      obtain ⟨same, shallow⟩ := gentle.spares.of_error ran
      rw [bind_of_error ran]
      exact .error same shallow

end Gentle

theorem gentle_throw {abrupt : Abrupt} (ordinary : abrupt.Ordinary)
    (shallow : abrupt.isOverflow = false) : Gentle post (throw abrupt : Engine α) :=
  ⟨fun _ => .error rfl ordinary, spares_throw shallow⟩

theorem gentle_raise {cause : RuntimeError} (shallow : cause.isOverflow = false) :
    Gentle post (raise cause : Engine α) :=
  gentle_throw (fun _ _ same => by cases same) shallow

theorem mild_modify {change : Machine → Machine}
    (scene : ∀ machine, (change machine).heap.scene = machine.heap.scene)
    (registers : ∀ machine, (change machine).registers = machine.registers) :
    Mild (modify change : Engine Unit) :=
  ⟨fun machine => .ok (scene machine) trivial, fun machine => .ok (registers machine)⟩

theorem mild_change {change : Heap → Heap} (same : ∀ heap, (change heap).scene = heap.scene) :
    Mild (changeHeap change) :=
  ⟨fun machine => .ok (same machine.heap) trivial, spares_change change⟩

theorem mild_change? {change : Heap → Option Heap}
    (same : ∀ heap after, change heap = some after → after.scene = heap.scene) :
    Mild (changeHeap? change) := by
  refine ⟨fun machine => ?_, spares_change? change⟩
  unfold changeHeap?
  split
  · rename_i after changed
    exact .ok (same _ _ changed) trivial
  · exact .error rfl fun _ _ same => by cases same

theorem mild_allocate {add : Heap → α × Heap}
    (same : ∀ heap, (add heap).2.scene = heap.scene) : Mild (allocate add) :=
  ⟨fun machine => .ok (same machine.heap) trivial, spares_allocate add⟩

/-! #### The whole machine -/

/-- A computation leaves the whole machine as it is. -/
def Reads {α : Type} (computation : Engine α) : Prop :=
  ∀ machine, (∃ value, computation machine = .ok value machine) ∨
    ∃ abrupt, computation machine = .error abrupt machine

namespace Reads

theorem pure (value : α) : Reads (pure value) :=
  fun _ => .inl ⟨value, rfl⟩

theorem bind {computation : Engine α} {next : α → Engine β} (reads : Reads computation)
    (follows : ∀ value, Reads (next value)) : Reads (computation >>= next) := by
  intro machine
  rcases reads machine with ⟨value, ran⟩ | ⟨abrupt, failed⟩
  · rw [bind_of_ok ran]
    exact follows value machine
  · exact .inr ⟨abrupt, bind_of_error failed⟩

/-- What is read is read off the machine that stays. -/
theorem same {computation : Engine α} (reads : Reads computation) {machine after : Machine}
    {value : α} (ran : computation machine = .ok value after) : after = machine := by
  rcases reads machine with ⟨found, same⟩ | ⟨abrupt, failed⟩
  · rw [same] at ran
    cases ran
    rfl
  · rw [failed] at ran
    cases ran

end Reads

/-- What leaves the whole machine as it is, and fails in ordinary ways and not for depth. -/
structure Looks {α : Type} (computation : Engine α) : Prop where
  reads : Reads computation
  mild : Mild computation

namespace Looks

theorem pure (value : α) : Looks (pure value) :=
  ⟨.pure value, .pure trivial⟩

theorem bind {computation : Engine α} {next : α → Engine β} (looks : Looks computation)
    (follows : ∀ value, Looks (next value)) : Looks (computation >>= next) :=
  ⟨looks.reads.bind fun value => (follows value).reads,
    looks.mild.bind fun value _ => (follows value).mild⟩

theorem of_ok {computation : Engine α} (looks : Looks computation) {machine after : Machine}
    {value : α} (ran : computation machine = .ok value after) : after = machine :=
  looks.reads.same ran

theorem of_error {computation : Engine α} (looks : Looks computation) {machine after : Machine}
    {abrupt : Abrupt} (failed : computation machine = .error abrupt after) :
    after = machine ∧ abrupt.Ordinary := by
  rcases looks.reads machine with ⟨value, ran⟩ | ⟨cause, same⟩
  · rw [ran] at failed
    cases failed
  · rw [same] at failed
    cases failed
    have ends := looks.mild.quiet machine
    rw [same] at ends
    cases ends with
    | error _ ordinary => exact ⟨rfl, ordinary⟩

end Looks

theorem looks_throw {abrupt : Abrupt} (ordinary : abrupt.Ordinary)
    (shallow : abrupt.isOverflow = false) : Looks (throw abrupt : Engine α) :=
  ⟨fun _ => .inr ⟨abrupt, rfl⟩, gentle_throw ordinary shallow⟩

theorem looks_raise {cause : RuntimeError} (shallow : cause.isOverflow = false) :
    Looks (raise cause : Engine α) :=
  looks_throw (fun _ _ same => by cases same) shallow

theorem looks_orFault (found : Option α) : Looks (orFault found) := by
  cases found with
  | some value => exact .pure value
  | none => exact looks_throw (fun _ _ same => by cases same) rfl

theorem looks_orEndless (found : Option α) : Looks (orEndless found) := by
  cases found with
  | some value => exact .pure value
  | none => exact looks_throw (fun _ _ same => by cases same) rfl

theorem looks_orRaise {result : Except RuntimeError α}
    (shallow : ∀ cause, result = .error cause → cause.isOverflow = false) :
    Looks (orRaise result) := by
  cases result with
  | ok value => exact .pure value
  | error cause => exact looks_raise (shallow cause rfl)

theorem looks_get : Looks (get : Engine Machine) :=
  ⟨fun machine => .inl ⟨machine, rfl⟩, fun _ => .ok rfl trivial, fun _ => .ok rfl⟩

theorem looks_read (read : Heap → α) : Looks (heapValue read) :=
  ⟨fun _ => .inl ⟨_, rfl⟩, fun _ => .ok rfl trivial, spares_read read⟩

end

/-! ### Texts, instructions and shapes -/

theorem looks_symbolText (symbol : Symbol) : Looks (symbolText symbol) :=
  looks_read _

theorem mild_newArray (values : Array Value) : Mild (newArray values) :=
  ⟨fun _ => .ok rfl trivial, fun _ => .ok rfl⟩

theorem looks_printString (value : Value) : Looks (printString value) :=
  .bind (looks_read _) fun _ => looks_orEndless _

theorem looks_displayString (value : Value) : Looks (displayString value) :=
  .bind (looks_read _) fun _ => looks_orEndless _

theorem looks_badBytecode {α : Type} (method : MethodId) (error : DecodeError) :
    Looks (badBytecode method error : Engine α) := by
  refine .bind (looks_read _) fun code => ?_
  refine .bind (looks_read _) fun signature => ?_
  refine .bind (looks_read _) fun listing? => ?_
  exact .bind (looks_orEndless _) fun listing => looks_raise rfl

theorem looks_instructionAt (method : MethodId) (offset : Nat) :
    Looks (instructionAt method offset) := by
  refine .bind (looks_read _) fun found => ?_
  cases found with
  | ok found => exact .pure _
  | error error => exact looks_badBytecode method error

theorem mild_patch (method : MethodId) (offset : Nat) (instruction : Instruction) :
    Mild (patch method offset instruction) :=
  mild_change fun _ => rfl

theorem mild_migrateIfStale (value : Value) : Mild (migrateIfStale value) := by
  cases value with
  | object object =>
    refine .bind (looks_read _).mild fun stale _ => ?_
    split
    · refine mild_change? fun heap after moved => ?_
      rw [Heap.framed_of_migrate? moved]
      rfl
    · exact .pure trivial
  | _ => exact .pure trivial

theorem looks_getField (object : InstanceId) (field : Nat) : Looks (getField object field) :=
  .bind (looks_read _) fun _ => looks_orFault _

theorem mild_setField (object : InstanceId) (field : Nat) (value : Value) :
    Mild (setField object field value) := by
  refine mild_change? fun heap after set => ?_
  rw [Heap.framed_of_setField? set]
  rfl

theorem mild_threadedCode (method : MethodId) : Mild (threadedCode method) := by
  refine .bind looks_get.mild fun machine _ => ?_
  -- The continuation lists are neither of the scene nor of the registers.
  refine .bind (mild_modify (fun _ => rfl) fun _ => rfl) fun _ _ => ?_
  split
  · exact .pure trivial
  · exact (looks_badBytecode method _).mild

theorem mild_ensureThreaded (method : MethodId) : Mild (ensureThreaded method) := by
  refine .bind (looks_read _).mild fun state _ => ?_
  refine .bind looks_get.mild fun machine _ => ?_
  split
  · exact .pure trivial
  · split
    · exact .pure trivial
    · refine .bind (mild_threadedCode method) fun program _ => ?_
      exact .bind (mild_change fun _ => rfl) fun _ _ => .pure trivial

theorem mild_refreshThreaded (method : MethodId) (offset : Nat) :
    Mild (refreshThreaded method offset) :=
  .bind (looks_instructionAt method offset).mild fun _ _ => mild_change fun _ => rfl

theorem mild_takeBackEdge (method : MethodId) (offset : Nat) :
    Mild (takeBackEdge method offset) := by
  refine .bind looks_get.mild fun machine _ => ?_
  refine .bind (looks_read _).mild fun taken _ => ?_
  exact .bind (mild_change fun _ => rfl) fun _ _ => .pure trivial

theorem mild_resetBackEdges (method : MethodId) : Mild (resetBackEdges method) :=
  mild_change fun _ => rfl

/-- Moves between the loops are counted in the registers. -/
theorem still_countTransfer (toward : Tier) : Still (countTransfer toward) :=
  fun _ => .ok (by cases toward <;> rfl) trivial

end Engine

/-! ### Frames -/

namespace Frame

open Engine

theorem looks_get (frame : Frame) (slot : Nat) : Looks (frame.get slot) :=
  looks_orFault _

theorem looks_getInner (context : ContextId) (slot : Nat) : Looks (getInner context slot) :=
  .bind (looks_read _) fun _ => looks_orFault _

theorem looks_blockOutFrom (levels : Nat) (block : BlockId) :
    Looks (blockOutFrom levels block) := by
  induction levels generalizing block with
  | zero => exact .pure _
  | succ levels inductionHypothesis =>
    refine .bind (looks_read _) fun receiver => ?_
    cases receiver with
    | none => exact looks_raise rfl
    | some receiver =>
      cases receiver with
      | block outer => exact inductionHypothesis outer
      | _ => exact looks_raise rfl

theorem looks_blockAt (frame : Frame) (level : Nat) : Looks (frame.blockAt level) := by
  unfold blockAt
  split
  · exact looks_blockOutFrom _ _
  · exact looks_raise rfl

theorem looks_contextAt (frame : Frame) (level : Nat) : Looks (frame.contextAt level) := by
  unfold contextAt
  split
  · split
    · exact .pure _
    · exact looks_raise rfl
  · refine .bind (looks_blockAt frame level) fun block => ?_
    refine .bind (looks_read _) fun context => ?_
    cases context with
    | some context => exact .pure _
    | none => exact looks_raise rfl

theorem looks_receiverAt (frame : Frame) (level : Nat) : Looks (frame.receiverAt level) := by
  unfold receiverAt
  split
  · exact .pure _
  · exact .bind (looks_contextAt frame level) fun context => looks_getInner context 0

theorem looks_homeReceiver (frame : Frame) : Looks frame.homeReceiver :=
  .bind (looks_read _) fun _ => looks_orEndless _

end Frame

/-! ### Activations -/

/-- A later state of an activation: the same method, in a frame. -/
structure Activation.In (method : MethodId) (frame : Frame) (activation : Activation) : Prop where
  method : activation.method = method
  frame : activation.frame = frame

theorem Activation.In.refl (activation : Activation) :
    activation.In activation.method activation.frame :=
  ⟨rfl, rfl⟩

namespace Activation

open Engine

variable {method : MethodId} {frame : Frame} {activation : Activation}

theorem looks_orStackFault {α : Type} (found : Option α) :
    Looks (activation.orStackFault found) := by
  cases found with
  | some value => exact .pure value
  | none => exact looks_throw (fun _ _ same => by cases same) rfl

theorem gentle_push (here : activation.In method frame) (value : Value) :
    Gentle (In method frame) (activation.push value) :=
  .bind (looks_orStackFault _).mild fun _ _ => .pure ⟨here.method, here.frame⟩

theorem gentle_pop (here : activation.In method frame) :
    Gentle (fun popped => In method frame popped.2) activation.pop :=
  .bind (looks_orStackFault _).mild fun _ _ => .pure ⟨here.method, here.frame⟩

theorem looks_peek (below : Nat) : Looks (activation.peek below) :=
  looks_orStackFault _

theorem gentle_setTop (here : activation.In method frame) (value : Value) :
    Gentle (In method frame) (activation.setTop value) :=
  .bind (looks_orStackFault _).mild fun _ _ => .pure ⟨here.method, here.frame⟩

theorem gentle_take (here : activation.In method frame) (count : Nat) :
    Gentle (fun taken => In method frame taken.2) (activation.take count) :=
  .bind (looks_orStackFault _).mild fun _ _ => .pure ⟨here.method, here.frame⟩

theorem gentle_drop (here : activation.In method frame) (count : Nat) :
    Gentle (In method frame) (activation.drop count) :=
  .bind (looks_orStackFault _).mild fun _ _ => .pure ⟨here.method, here.frame⟩

theorem looks_literal? (index : UInt8) : Looks (activation.literal? index) :=
  looks_read _

theorem looks_literal (offset : Nat) (index : UInt8) : Looks (activation.literal offset index) := by
  refine .bind (looks_literal? index) fun found => ?_
  cases found with
  | some value => exact .pure _
  | none => exact looks_badBytecode _ _

theorem looks_receiverInstance (level : UInt8) : Looks (activation.receiverInstance level) := by
  refine .bind (Frame.looks_receiverAt _ _) fun receiver => ?_
  cases receiver with
  | object object => exact .pure _
  | _ => exact looks_raise rfl

theorem shallow_selector? {found : Option Value} {cause : RuntimeError}
    (failed : selector? found = .error cause) : cause.isOverflow = false := by
  unfold selector? at failed
  split at failed <;> cases failed <;> rfl

theorem looks_selector (literal : UInt8) : Looks (activation.selector literal) :=
  .bind (looks_literal? literal) fun _ =>
    looks_orRaise fun _ => shallow_selector?

theorem looks_valueCount (selector : Symbol) (arity : Arity) :
    Looks (valueCount selector arity) := by
  unfold valueCount
  split
  · exact .pure _
  · exact looks_read _

theorem looks_hasStaleReceiver (count : Nat) : Looks (activation.hasStaleReceiver count) := by
  unfold hasStaleReceiver
  split
  · exact .pure _
  · split
    · exact looks_read _
    · exact .pure _

theorem looks_meetsStaleReceiver (literal : UInt8) (arity : Arity) :
    Looks (activation.meetsStaleReceiver literal arity) := by
  unfold meetsStaleReceiver
  cases arity with
  | ofSelector =>
    refine .bind (looks_literal? literal) fun found => ?_
    cases found with
    | none => exact @looks_hasStaleReceiver activation 0
    | some value =>
      cases value with
      | symbol selector =>
        exact .bind (looks_read _) fun count => looks_hasStaleReceiver count
      | _ => exact @looks_hasStaleReceiver activation 0
  | one => exact @looks_hasStaleReceiver activation 1
  | two => exact @looks_hasStaleReceiver activation 2
  | three => exact @looks_hasStaleReceiver activation 3

theorem looks_jumpTarget (offset : Nat) (instruction : Instruction) :
    Looks (activation.jumpTarget offset instruction) := by
  unfold jumpTarget
  split
  · exact .pure _
  · exact looks_badBytecode _ _

theorem mild_incrementField (field level : UInt8) :
    Mild (activation.incrementField field level) := by
  refine .bind (looks_receiverInstance level).mild fun object _ => ?_
  refine .bind (looks_getField object field.toNat).mild fun value _ => ?_
  refine .bind (looks_orRaise fun _ => Value.shallow_increment).mild fun next _ => ?_
  exact .bind (mild_setField object field.toNat next) fun _ _ => .pure trivial

theorem gentle_incrementTop (here : activation.In method frame) (delta : Int64)
    (operation : String) : Gentle (In method frame) (activation.incrementTop delta operation) := by
  refine .bind (looks_peek 0).mild fun top _ => ?_
  refine .bind (looks_orRaise fun _ => Value.shallow_increment).mild fun value _ => ?_
  exact gentle_setTop here value

end Activation

/-! ### Calls -/

namespace Engine

theorem mild_handlerCall (receiver : Value) (cls : ClassId) (selector : Symbol)
    (arguments : List Value) : Mild (handlerCall receiver cls selector arguments) := by
  refine .bind looks_get.mild fun machine _ => ?_
  refine .bind (looks_read _).mild fun handler _ => ?_
  cases handler with
  | none => exact .bind (looks_symbolText selector).mild fun _ _ => gentle_raise rfl
  | some handler => exact .bind (mild_newArray _) fun array _ => .pure trivial

theorem mild_messageCall (receiver : Value) (selector : Symbol) (arguments : List Value) :
    Mild (messageCall receiver selector arguments) := by
  refine .bind (mild_migrateIfStale receiver) fun _ _ => ?_
  refine .bind (looks_read _).mild fun cls _ => ?_
  refine .bind (looks_read _).mild fun target _ => ?_
  cases target with
  | none => exact mild_handlerCall receiver cls selector arguments
  | some target => exact .pure trivial

end Engine

open Engine in
theorem Caller.looks_evaluation (block : BlockId) (arguments : Arguments) :
    Looks (Caller.evaluation block arguments) := by
  refine .bind (looks_read _) fun method => ?_
  refine .bind (looks_read _) fun expected => ?_
  dsimp only
  split
  · exact .pure _
  · exact looks_raise rfl

/-- The activation that an attempt leaves behind. -/
def Attempt.activation : Attempt → Activation
  | .done _ activation | .call _ activation _ => activation

/-- An attempt is on in a frame of the same method. -/
def Attempt.In (method : MethodId) (frame : Frame) (attempt : Attempt) : Prop :=
  attempt.activation.In method frame

namespace Activation

open Engine

variable {method : MethodId} {frame : Frame} {activation : Activation}
  (here : activation.In method frame)

include here

theorem gentle_takeCall (target : Invokable) (count : Nat) :
    Gentle (fun taken => In method frame taken.2) (activation.takeCall target count) := by
  unfold takeCall
  split
  · exact .bind (gentle_pop here) fun _ here => .pure here
  · refine .bind (gentle_pop here) fun _ here => ?_
    exact .bind (gentle_pop here) fun _ here => .pure here
  · refine .bind (gentle_pop here) fun _ here => ?_
    refine .bind (gentle_pop here) fun _ here => ?_
    exact .bind (gentle_pop here) fun _ here => .pure here
  · refine .bind (gentle_take here _) fun _ here => ?_
    exact .bind (gentle_pop here) fun _ here => .pure here

theorem gentle_takeHandlerCall (cls : ClassId) (selector : Symbol) (count : Nat) :
    Gentle (fun taken => In method frame taken.2)
      (activation.takeHandlerCall cls selector count) := by
  refine .bind (gentle_take here _) fun _ here => ?_
  refine .bind (gentle_pop here) fun _ here => ?_
  exact .bind (mild_handlerCall _ _ _ _) fun _ _ => .pure here

theorem gentle_foundCall (found : Option Invokable) (cls : ClassId) (selector : Symbol)
    (count : Nat) :
    Gentle (Attempt.In method frame) (activation.foundCall found cls selector count) := by
  unfold foundCall
  cases found with
  | some target => exact .bind (gentle_takeCall here target count) fun _ here => .pure here
  | none =>
    exact .bind (gentle_takeHandlerCall here cls selector count) fun _ here => .pure here

omit here in
theorem mild_lookupAtSite (offset : Nat) (cls : ClassId) (shape : ShapeId)
    (selector : Symbol) : Mild (activation.lookupAtSite offset cls shape selector) := by
  refine .bind (looks_read _).mild fun _ _ => ?_
  exact .bind (mild_change fun _ => rfl) fun _ _ => .pure trivial

theorem gentle_sendAttempt (offset : Nat) (literal : UInt8) (arity : Arity) :
    Gentle (Attempt.In method frame) (activation.sendAttempt offset literal arity) := by
  refine .bind (looks_selector literal).mild fun selector _ => ?_
  refine .bind (looks_valueCount selector arity).mild fun count _ => ?_
  refine .bind (looks_peek _).mild fun receiver _ => ?_
  refine .bind (looks_read _).mild fun stale _ => ?_
  split
  · refine .bind (mild_migrateIfStale receiver) fun _ _ => ?_
    exact .bind (mild_change fun _ => rfl) fun _ _ => .pure here
  · refine .bind (looks_read _).mild fun cls _ => ?_
    refine .bind (mild_change fun _ => rfl) fun _ _ => ?_
    refine .bind (looks_read _).mild fun shape _ => ?_
    refine .bind (mild_lookupAtSite offset cls shape selector) fun found _ => ?_
    exact gentle_foundCall here found cls selector count

theorem gentle_sendInlinedAttempt (offset : Nat) (literal : UInt8) (arity : Arity) :
    Gentle (Attempt.In method frame) (activation.sendInlinedAttempt offset literal arity) := by
  refine .bind (looks_read _).mild fun site _ => ?_
  split
  · refine .bind (looks_peek _).mild fun receiver _ => ?_
    refine .bind (looks_read _).mild fun hit _ => ?_
    split
    · exact .bind (gentle_takeCall here _ _) fun _ here => .pure here
    · exact gentle_sendAttempt here offset literal arity
  · exact gentle_sendAttempt here offset literal arity

theorem gentle_quickSuperSendAttempt (offset : Nat) (literal : UInt8) (arity : Arity) :
    Gentle (Attempt.In method frame) (activation.quickSuperSendAttempt offset literal arity) := by
  refine .bind (looks_selector literal).mild fun selector _ => ?_
  refine .bind (looks_valueCount selector arity).mild fun count _ => ?_
  refine .bind (looks_read _).mild fun holder _ => ?_
  cases holder with
  | none => exact gentle_raise rfl
  | some holder =>
    refine .bind (looks_read _).mild fun superclass _ => ?_
    cases superclass with
    | none => exact gentle_foundCall here none holder selector count
    | some superclass =>
      refine .bind (looks_read _).mild fun shape _ => ?_
      refine .bind (mild_lookupAtSite offset superclass shape selector) fun found _ => ?_
      exact gentle_foundCall here found superclass selector count

theorem gentle_globalAttempt (offset : Nat) (literal : UInt8) :
    Gentle (Attempt.In method frame) (activation.globalAttempt offset literal) := by
  refine .bind (looks_literal offset literal).mild fun value _ => ?_
  cases value with
  | symbol name =>
    refine .bind looks_get.mild fun machine _ => ?_
    cases machine.globals.get? name with
    | some value => exact .bind (gentle_push here value) fun _ here => .pure here
    | none =>
      refine .bind (Frame.looks_homeReceiver _).mild fun receiver _ => ?_
      refine .bind looks_get.mild fun machine _ => ?_
      exact .bind (mild_messageCall _ _ _) fun made _ => .pure here
  | _ => exact gentle_raise rfl

omit here in
theorem mild_escapeCall : Mild activation.escapeCall := by
  refine .bind (Frame.looks_homeReceiver _).mild fun receiver _ => ?_
  refine .bind looks_get.mild fun machine _ => ?_
  exact mild_messageCall _ _ _

theorem gentle_quickenSuperSend (offset : Nat) (literal : UInt8) :
    Gentle (fun done => In method frame done.2) (activation.quickenSuperSend offset literal) := by
  refine .bind (looks_literal offset literal).mild fun value _ => ?_
  cases value with
  | symbol selector =>
    refine .bind (looks_read _).mild fun count _ => ?_
    exact .bind (mild_patch _ _ _) fun _ _ => .pure here
  | _ => exact gentle_raise rfl

theorem gentle_resolveAccess (offset : Nat) (instruction : Instruction) :
    Gentle (fun done => In method frame done.2) (activation.resolveAccess offset instruction) := by
  refine .bind (looks_read _).mild fun scope _ => ?_
  split
  · exact .bind (mild_patch _ _ _) fun _ _ => .pure here
  · exact .bind (looks_read _).mild fun _ _ => gentle_raise rfl

theorem gentle_branch (offset : Nat) (instruction : Instruction) (wanted leavesNil : Bool) :
    Gentle (fun done => In method frame done.2)
      (activation.branch offset instruction wanted leavesNil) := by
  have jumps (after : Activation) (here : after.In method frame) :
      Gentle (fun done => In method frame done.2)
        (do return (Flow.jump (← after.jumpTarget offset instruction), after)) :=
    .bind (looks_jumpTarget offset instruction).mild fun _ _ => .pure here
  refine .bind (gentle_pop here) fun popped here => ?_
  dsimp only
  split
  · cases leavesNil with
    | true => exact .bind (gentle_push here .nil) jumps
    | false => exact jumps popped.2 here
  · exact .pure here

end Activation

/-! ### Instructions -/

/-- An instruction that makes a block, stores into a variable or returns from a home. -/
def Instruction.touchesClosures : Instruction → Bool
  | .pushBlock .. | .popFrame _ | .popInner .. | .nilFrame _ | .nilInner _
  | .returnNonLocal _ => true
  | _ => false

namespace Activation

open Engine

section

variable {method : MethodId} {frame : Frame} {activation : Activation} {offset : Nat}
  {instruction : Instruction} (here : activation.In method frame)

/-- An instruction that does not call. -/
theorem gentle_done {computation : Engine (Flow × Activation)}
    (gentle : Gentle (fun done => done.2.In method frame) computation) :
    Gentle (Attempt.In method frame)
      (do let made ← computation; return Attempt.done made.1 made.2) :=
  .bind gentle fun _ here => .pure here

include here

/-- An instruction that only pushes a value. -/
theorem gentle_pushNext {computation : Engine Value} (mild : Mild computation) :
    Gentle (fun done => done.2.In method frame)
      (do return (Flow.next, ← activation.push (← computation))) :=
  .bind mild fun value _ => .bind (gentle_push here value) fun _ here => .pure here

theorem gentle_begin (plain : instruction.touchesClosures = false) :
    Gentle (Attempt.In method frame) (activation.begin offset instruction) := by
  cases instruction with
  | pushBlock | popFrame | popInner | nilFrame | nilInner | returnNonLocal => cases plain
  | halt | returnLocal | pop =>
    exact gentle_done (.bind (gentle_pop here) fun _ here => .pure here)
  | dup | dupSecond => exact gentle_done (gentle_pushNext here (looks_peek _).mild)
  | pushFrame slot => exact gentle_done (gentle_pushNext here (Frame.looks_get _ _).mild)
  | pushInner slot level =>
    exact gentle_done (.bind (Frame.looks_contextAt _ _).mild fun context _ =>
      gentle_pushNext here (Frame.looks_getInner context _).mild)
  | pushField field level =>
    exact gentle_done (.bind (looks_receiverInstance level).mild fun object _ =>
      gentle_pushNext here (looks_getField object _).mild)
  | pushConstant literal =>
    exact gentle_done (gentle_pushNext here (looks_literal offset literal).mild)
  | pushZero | pushOne | pushNil =>
    exact gentle_done (.bind (gentle_push here _) fun _ here => .pure here)
  | pushGlobal literal => exact gentle_globalAttempt here offset literal
  | popField field level =>
    refine gentle_done (.bind (gentle_pop here) fun popped here => ?_)
    refine .bind (looks_receiverInstance level).mild fun object _ => ?_
    exact .bind (mild_setField object _ _) fun _ _ => .pure here
  | send literal arity => exact gentle_sendAttempt here offset literal arity
  | superSend literal arity => exact gentle_done (gentle_quickenSuperSend here offset literal)
  | quickSuperSend literal arity => exact gentle_quickSuperSendAttempt here offset literal arity
  | returnSelf => exact gentle_done (.pure here)
  | returnField field =>
    refine gentle_done (.bind (looks_receiverInstance 0).mild fun object _ => ?_)
    exact .bind (looks_getField object _).mild fun _ _ => .pure here
  | inc | dec =>
    exact gentle_done (.bind (gentle_incrementTop here _ _) fun _ here => .pure here)
  | incField field level =>
    exact gentle_done (.bind (mild_incrementField field level) fun _ _ => .pure here)
  | incFieldPush field level =>
    exact gentle_done (gentle_pushNext here (mild_incrementField field level))
  | jump | jumpBackward =>
    exact gentle_done (.bind (looks_jumpTarget offset _).mild fun _ _ => .pure here)
  | jumpOnTrueTopNil | jumpOnFalseTopNil | jumpOnTruePop | jumpOnFalsePop =>
    exact gentle_done (gentle_branch here offset _ _ _)
  | jumpIfGreater distance =>
    refine gentle_done (.bind (looks_peek 0).mild fun top _ => ?_)
    refine .bind (looks_peek 1).mild fun second _ => ?_
    refine .bind (looks_orRaise fun _ => Value.shallow_order).mild fun order _ => ?_
    split
    · refine .bind (gentle_drop here 2) fun _ here => ?_
      exact .bind (looks_jumpTarget offset _).mild fun _ _ => .pure here
    · exact .pure here
  | pushLocal | pushArgument | popLocal | popArgument | nilLocal =>
    exact gentle_done (gentle_resolveAccess here offset _)

end

/-! ### Registers of the rest -/

section

variable (activation : Activation)

theorem spares_returnNonLocalAttempt (level : UInt8) :
    Spares (activation.returnNonLocalAttempt level) := by
  have here := In.refl activation
  refine .bind (gentle_pop here).spares fun (value, activation) => ?_
  dsimp only
  split
  · exact .pure
  · refine .bind (Frame.looks_blockAt _ _).mild.spares fun block => ?_
    refine .bind (spares_read _) fun context => ?_
    cases context with
    | none => exact spares_throw rfl
    | some target =>
      refine .bind (spares_read _) fun running => ?_
      split
      · exact spares_throw rfl
      · exact .bind mild_escapeCall.spares fun made => .pure

theorem spares_makeBlock (literal : UInt8) (captures : Bool) :
    Spares (activation.makeBlock literal captures) := by
  refine .bind (spares_read _) fun found => ?_
  split
  · exact .bind (spares_allocate _) fun _ => .pure
  · exact spares_throw rfl
  · exact spares_throw rfl

theorem spares_set (frame : Frame) (slot : Nat) (value : Value) :
    Spares (frame.set slot value) := by
  unfold Frame.set
  split
  · exact .pure
  · exact spares_throw rfl

theorem spares_setInner (context : ContextId) (slot : Nat) (value : Value) :
    Spares (Frame.setInner context slot value) := by
  refine .bind (spares_read _) fun size => ?_
  split
  · exact spares_change _
  · exact spares_throw rfl

/-- No instruction touches the registers up to its call. -/
theorem spares_begin (offset : Nat) (instruction : Instruction) :
    Spares (activation.begin offset instruction) := by
  have here := In.refl activation
  have done {computation : Engine (Flow × Activation)} (spares : Spares computation) :
      Spares (do let made ← computation; return Attempt.done made.1 made.2) :=
    .bind spares fun _ => .pure
  cases instruction with
  | pushBlock literal captures =>
    refine done (.bind (spares_makeBlock _ literal captures) fun value => ?_)
    exact .bind (gentle_push here value).spares fun _ => .pure
  | popFrame slot =>
    refine done (.bind (gentle_pop here).spares fun popped => ?_)
    exact .bind (spares_set _ _ _) fun _ => .pure
  | nilFrame slot => exact done (.bind (spares_set _ _ _) fun _ => .pure)
  | popInner slot level =>
    refine done (.bind (gentle_pop here).spares fun popped => ?_)
    refine .bind (Frame.looks_contextAt _ _).mild.spares fun context => ?_
    exact .bind (spares_setInner context _ _) fun _ => .pure
  | nilInner slot =>
    refine done (.bind (Frame.looks_contextAt _ _).mild.spares fun context => ?_)
    exact .bind (spares_setInner context _ _) fun _ => .pure
  | returnNonLocal level => exact spares_returnNonLocalAttempt _ level
  | _ => exact (gentle_begin here rfl).spares

theorem spares_beginThreaded (offset : Nat) (instruction : Instruction) :
    Spares (activation.beginThreaded offset instruction) := by
  have here := In.refl activation
  unfold beginThreaded
  split
  · exact (gentle_sendInlinedAttempt here offset _ _).spares
  · exact spares_begin _ offset _

end

end Activation

end ObjectMachine
