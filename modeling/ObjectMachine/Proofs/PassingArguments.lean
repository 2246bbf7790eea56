/-
This file follows the values of a send from the operand stack of the caller into what it calls.
However many there are and whichever way the send takes, the target gets the receiver and the
arguments in their order, and one answer stands where they have been. A method that takes as
many arguments begins with each of them at its own place, be it in the frame or in the context;
an operation of the machine gets them as they are. What is not understood goes to the handler
with an array of its own.
-/

import ObjectMachine.Proofs.Placement
import ObjectMachine.Proofs.PlainFields
import ObjectMachine.Proofs.UnknownMessages

namespace ObjectMachine

/-! ### From the stack to a call -/

/-- Arguments that come through the entry made for their number. -/
def Arguments.spread : List Value → Arguments
  | [] => .none
  | [first] => .one first
  | [first, second] => .two first second
  | arguments => .many arguments

theorem Arguments.toList_spread (arguments : List Value) :
    (spread arguments).toList = arguments := by
  unfold spread
  split <;> rfl

/--
A computation calls what has been found, or asks a class for a handler if nothing has been.
`resume` makes its result of the answer.
-/
structure Engine.Delivers {α : Type} (computation : Engine α) (call : Caller)
    (before machine : Machine) (found : Option Invokable) (asked : ClassId) (receiver : Value)
    (selector : Symbol) (arguments : List Value) (resume : Value → α) : Prop where
  called : ∀ target, found = some target →
    computation before = (resume <$> call target receiver (.spread arguments)) machine
  unknown : found = none →
    computation.Asks call before machine asked receiver selector arguments resume

theorem Engine.Delivers.of_eq {α : Type} {first second : Engine α} {call : Caller}
    {before other machine : Machine} {found : Option Invokable} {asked : ClassId}
    {receiver : Value} {selector : Symbol} {arguments : List Value} {resume : Value → α}
    (same : first before = second other)
    (delivers : second.Delivers call other machine found asked receiver selector arguments resume) :
    first.Delivers call before machine found asked receiver selector arguments resume where
  called target here := same.trans (delivers.called target here)
  unknown missing := (delivers.unknown missing).of_eq same

namespace Activation

variable {call : Caller} {activation : Activation} {machine : Machine} {literal : UInt8}
  {arity : Arity} {selector : Symbol} {receiver : Value} {arguments below : List Value}

/-- The values that a send takes are on top of the stack. -/
structure Presents (activation : Activation) (machine : Machine) (literal : UInt8)
    (arity : Arity) (selector : Symbol) (receiver : Value) (arguments below : List Value) :
    Prop where
  values : activation.stack.values = arguments.reverse ++ receiver :: below
  count : Instruction.valueCount (machine.heap.code.arityOf activation.method) literal arity =
    arguments.length + 1
  named : machine.heap.code.literal? activation.method literal = some (.symbol selector)

theorem Presents.peek?
    (presents : activation.Presents machine literal arity selector receiver arguments below) :
    activation.stack.peek? (Instruction.valueCount
      (machine.heap.code.arityOf activation.method) literal arity - 1) = some receiver := by
  rw [presents.count, Nat.add_sub_cancel, OperandStack.peek?, presents.values,
    List.getElem?_append_right (Nat.le_of_eq List.length_reverse), List.length_reverse,
    Nat.sub_self]
  rfl

theorem pop_of_values {top : Value} {rest : List Value}
    (values : activation.stack.values = top :: rest) :
    activation.pop =
      pure (top, { activation with stack := ⟨rest, activation.stack.room + 1⟩ }) := by
  rw [pop, OperandStack.pop?, values]
  rfl

/-- The activation once the values of a send have left its stack. -/
def relieved (activation : Activation) (below arguments : List Value) : Activation :=
  { activation with stack := ⟨below, activation.stack.room + arguments.length + 1⟩ }

/-- The values leave the stack, and the call has the arguments in their order. -/
theorem takeCall_of_values
    (values : activation.stack.values = arguments.reverse ++ receiver :: below)
    (target : Invokable) :
    activation.takeCall target (arguments.length + 1) =
      pure (⟨target, receiver, .spread arguments⟩, activation.relieved below arguments) := by
  match arguments, values with
  | [], values =>
    show (activation.pop >>= fun popped => _) = _
    rw [pop_of_values values]
    rfl
  | [first], values =>
    show (activation.pop >>= fun popped => _) = _
    rw [pop_of_values values]
    rfl
  | [first, second], values =>
    show (activation.pop >>= fun popped => _) = _
    rw [pop_of_values values]
    rfl
  | first :: second :: third :: rest, values =>
    show (activation.take (first :: second :: third :: rest).length >>= fun taken => _) = _
    rw [take, OperandStack.take?_of_values values]
    rfl

/-- One answer stands where the values of the send have been. -/
theorem completeSend_calls
    (values : activation.stack.values = arguments.reverse ++ receiver :: below)
    (target : Invokable) (asked : ClassId) :
    activation.completeSend call (some target) asked selector (arguments.length + 1) =
      (fun answer => (.next, activation.answered below arguments answer)) <$>
        call target receiver (.spread arguments) := by
  rw [completeSend_eq, foundCall, map_eq_pure_bind]
  dsimp only
  rw [takeCall_of_values values]
  rfl

theorem completeSend_delivers
    (values : activation.stack.values = arguments.reverse ++ receiver :: below)
    (found : Option Invokable) (asked : ClassId) :
    (activation.completeSend call found asked selector (arguments.length + 1)).Delivers call
      machine machine found asked receiver selector arguments
      fun answer => (.next, activation.answered below arguments answer) where
  called target here := by rw [here, completeSend_calls values]
  unknown missing := by
    rw [missing]
    exact completeSend_asks values

/-! ### Every way to send -/

theorem Presents.send
    (presents : activation.Presents machine literal arity selector receiver arguments below)
    (offset : Nat) (current : machine.heap.isStaleValue receiver = false) :
    (activation.send call offset literal arity).Delivers call machine
      ((machine.change (.receive activation.method offset (machine.heap.classOf receiver))).change
        (.lookup activation.method offset (machine.heap.classOf receiver)
          (machine.heap.shapeFor receiver (machine.heap.classOf receiver)) selector))
      (machine.heap.lookupCached (machine.heap.classOf receiver)
        (machine.heap.shapeFor receiver (machine.heap.classOf receiver)) selector
        (machine.heap.site activation.method offset).cache).1
      (machine.heap.classOf receiver) receiver selector arguments
      fun answer => (.next, activation.answered below arguments answer) := by
  refine .of_eq ?_ (completeSend_delivers presents.values _ _)
  rw [send_through_cache presents.named presents.peek? current, presents.count]

theorem Presents.of_code {after : Machine}
    (presents : activation.Presents machine literal arity selector receiver arguments below)
    (code : after.heap.code = machine.heap.code) :
    activation.Presents after literal arity selector receiver arguments below :=
  ⟨presents.values, code ▸ presents.count, code ▸ presents.named⟩

/-- A receiver with a superseded shape is moved, and the send is made anew. -/
theorem Presents.send_of_stale
    (presents : activation.Presents machine literal arity selector receiver arguments below)
    (offset : Nat) {publisher : ShapeId → ClassId} {classes : ClassId → Prop}
    {objects : InstanceId → Prop} {object : InstanceId}
    (laid : machine.heap.Laid publisher classes objects) (mine : objects object)
    (same : receiver = .object object) (stale : machine.heap.isStale object = true) :
    ∃ after, activation.send call offset literal arity machine = .ok (.retry, activation) after ∧
      after.heap.isStale object = false ∧
      activation.Presents after literal arity selector receiver arguments below := by
  obtain ⟨migrated, moves, laidAfter, follows⟩ := laid.migrate mine _
  have moves : machine.heap.migrate? object = some migrated := moves
  have change : machine.change (.migrate object) = { machine with heap := migrated } := by
    simp only [Machine.change, Change.apply, moves, Option.getD_some]
  have migrates : Engine.migrateIfStale receiver machine =
      .ok () (machine.change (.migrate object)) := by
    rw [same, change]
    show (if machine.heap.isStale object = true then Engine.changeHeap? (·.migrate? object)
      else _ : Engine Unit) machine = _
    rw [if_pos stale]
    simp only [Engine.changeHeap?, moves]
  have staleValue : machine.heap.isStaleValue receiver = true := by
    rw [same]
    exact stale
  refine ⟨(machine.change (.migrate object)).change (.dropStale activation.method offset), ?_, ?_,
    presents.of_code ((Heap.code_apply _ _).trans (Heap.code_apply _ _))⟩
  · rw [Activation.send, Engine.bind_of_ok (selector_of_named presents.named),
      Engine.bind_of_ok (valueCount_of_named presents.named),
      Engine.bind_of_ok (peek_of_found machine presents.peek?)]
    show (if machine.heap.isStaleValue receiver = true then _ else _ : Engine _) machine = _
    rw [if_pos staleValue, Engine.bind_of_ok migrates]
    rfl
  · have latest := (laidAfter.classLaid _ (laidAfter.owned object mine)).latest
    rw [← follows.current] at latest
    rw [change]
    show (!(migrated.shapeOfInstance object).latest) = false
    rw [Heap.shapeOfInstance, latest]
    rfl

theorem Presents.quickSuperSend
    (presents : activation.Presents machine literal arity selector receiver arguments below)
    (offset : Nat) {holder superclass : ClassId}
    (held : machine.heap.holder? (.method activation.method) = some holder)
    (above : (machine.heap.classes.get holder).superclass = some superclass) :
    (activation.quickSuperSend call offset literal arity).Delivers call machine
      (machine.change (.lookup activation.method offset superclass
        (machine.heap.classes.get superclass).layout selector))
      (machine.heap.lookupCached superclass (machine.heap.classes.get superclass).layout selector
        (machine.heap.site activation.method offset).cache).1
      superclass receiver selector arguments
      fun answer => (.next, activation.answered below arguments answer) := by
  refine .of_eq ?_ (completeSend_delivers presents.values _ _)
  rw [quickSuperSend_through_cache presents.named held above, presents.count]

end Activation

/-! ### From a call to a frame -/

namespace Frame

/-- What a place of an activation holds. -/
def at? (frame : Frame) (heap : Heap) : VariablePlace → Option Value
  | .frame slot => frame.slots[slot]?
  | .inner slot => frame.context.bind fun context => (heap.contexts.get context).slots[slot]?

/--
The receiver is in slot zero of the frame, and of the context if there is one, and each argument
at its own place.
-/
structure Seats (frame : Frame) (heap : Heap) (level : ScopeLevel) (receiver : Value)
    (arguments : List Value) : Prop where
  own : frame.at? heap (.frame 0) = some receiver
  context : level.hasContext = true → frame.at? heap (.inner 0) = some receiver
  contextless : level.hasContext = false → frame.context = none
  argument : ∀ (index : Nat) (value : Value), arguments[index]? = some value →
    ∃ place, level.arguments[index]? = some place ∧ frame.at? heap place = some value

theorem Made.seats {scene : Scene} {code : Method} {receiver : Value} {arguments : List Value}
    {frame : Frame} {machine : Machine}
    (made : Made scene code receiver (code.scope.own.arguments.zip arguments) frame machine)
    (settled : code.scope.own.Settled)
    (placed : code.scope.own.arguments.length = arguments.length) :
    frame.Seats machine.heap code.scope.own receiver arguments := by
  obtain ⟨rfl, here⟩ := made
  have own : code.scope.own.Holds VariablePlace.frameSlot? (scene.startFrame code receiver
      (code.scope.own.arguments.zip arguments)).slots receiver (ScopeLevel.fresh arguments) :=
    settled.holds_fresh VariablePlace.slotted_frame settled.frameSlot arguments
  have inner : code.scope.own.Holds VariablePlace.innerSlot?
      ((code.scope.own.arguments.zip arguments).foldl
        (VariablePlace.put VariablePlace.innerSlot?) (blankSlots code.innerSize receiver))
      receiver (ScopeLevel.fresh arguments) :=
    settled.holds_fresh VariablePlace.slotted_inner settled.innerSlot arguments
  -- The slots of the context, where there is one.
  have context (has : code.innerSize ≠ 0) (slot : Nat) :
      (scene.startFrame code receiver (code.scope.own.arguments.zip arguments)).at? machine.heap
        (.inner slot) = ((code.scope.own.arguments.zip arguments).foldl
          (VariablePlace.put VariablePlace.innerSlot?)
          (blankSlots code.innerSize receiver))[slot]? := by
    have rows := congrArg Scene.contexts here
    rw [Scene.started, if_neg has] at rows
    rw [at?, Scene.startFrame, Scene.startContext, if_neg has, Option.bind_some,
      show machine.heap.contexts = scene.contexts.add _ from rows, Table.get_add_next]
  refine ⟨own.receiver, fun has => ?_, fun none => ?_, fun index value found => ?_⟩
  · have has : code.innerSize ≠ 0 := Nat.pos_iff_ne_zero.mp (of_decide_eq_true has)
    exact (context has 0).trans inner.receiver
  · have none : code.innerSize = 0 := Nat.eq_zero_of_not_pos (of_decide_eq_false none)
    rw [Scene.startFrame, Scene.startContext, if_pos none]
  · have within : index < code.scope.own.arguments.length :=
      placed ▸ (List.getElem?_eq_some_iff.mp found).1
    have declared : code.scope.own.placeOf? .argument (index + 1) =
        some code.scope.own.arguments[index] := List.getElem?_eq_getElem within
    have fresh : ScopeLevel.fresh arguments .argument (index + 1) = value := by
      rw [ScopeLevel.fresh, Nat.add_sub_cancel, List.getD_eq_getElem?_getD, found]
      rfl
    refine ⟨_, declared, ?_⟩
    cases place : code.scope.own.arguments[index] with
    | frame slot =>
      rw [place] at declared
      exact (own.stored declared rfl).trans (congrArg some fresh)
    | inner slot =>
      rw [place] at declared
      have has : code.innerSize ≠ 0 := Nat.ne_of_gt (Nat.zero_lt_of_lt (settled.inner declared).2)
      rw [context has slot]
      exact (inner.stored declared rfl).trans (congrArg some fresh)

end Frame

namespace Engine

/-- A method is run in a frame that has the receiver and the arguments. -/
theorem invoke_method {machine : Machine} {method : MethodId} {captured locals : List Bool}
    {needsContext : Bool} (fuel : Nat) (receiver : Value) (arguments : Arguments)
    (level : (machine.heap.methods.get method).scope.own = .of captured locals needsContext)
    (count : (machine.heap.methods.get method).argumentCount = arguments.toList.length + 1) :
    ∃ frame after, invoke (fuel + 1) (.method method) receiver arguments machine =
        activate (Activation.runIn (invoke fuel) fuel) fuel method frame after ∧
      frame.Seats after.heap (.of captured locals needsContext) receiver arguments.toList := by
  have placed := Nat.succ.inj count
  obtain ⟨frame, after, created, made⟩ : ∃ frame after,
      Frame.create (machine.heap.methods.get method) receiver arguments.settled machine =
        .ok frame after ∧ Frame.Made machine.heap.scene (machine.heap.methods.get method) receiver
          _ frame after :=
    Frame.made_create rfl arguments.settled (by rw [Arguments.toList_settled, placed])
  rw [Arguments.toList_settled] at made
  refine ⟨frame, after, (bind_of_ok created :), ?_⟩
  have seats := made.seats (level ▸ ScopeLevel.settled_of captured locals needsContext) placed
  rwa [level] at seats

/-- An operation is applied to the receiver and the arguments. -/
theorem invoke_primitive {machine : Machine} {primitive : PrimitiveId} {operation : Operation}
    (fuel : Nat) (receiver : Value) (arguments : Arguments)
    (found : OperationEntry.table[(machine.heap.primitives.get primitive).index]? =
      some operation) :
    invoke (fuel + 1) (.primitive primitive) receiver arguments machine =
      operation.apply (invoke fuel) fuel receiver arguments.toList machine := by
  have index : heapValue (fun heap => (heap.primitives.get primitive).index) machine =
      .ok (machine.heap.primitives.get primitive).index machine := rfl
  rw [invoke, invokeWith, bind_of_ok index, found]

end Engine

/--
A send whose values are on top of the stack passes them on as they are, whichever way it takes:
through the cache of its site, by the guess of threaded code, or from the superclass on. What has
been found is called with the receiver and the arguments in their order; if nothing has been, a
handler is called with the selector and an array of the arguments that has not been there before.
With the answer, and with nothing else, the stack goes on above what was below the values; before
a receiver with a superseded shape has been moved, it stays as it is. A method that is called with
as many arguments as it takes is run in a frame that has the receiver in slot zero, as its context
has, and each argument at its own place; an operation of the machine gets them as they are.
-/
theorem sends_pass_receiver_and_arguments {activation : Activation} {machine : Machine}
    {literal : UInt8} {arity : Arity} {selector : Symbol} {receiver : Value}
    {arguments below : List Value}
    (presents : activation.Presents machine literal arity selector receiver arguments below)
    (call : Caller) (offset : Nat) :
    (machine.heap.isStaleValue receiver = false →
      (activation.send call offset literal arity).Delivers call machine
        ((machine.change (.receive activation.method offset
          (machine.heap.classOf receiver))).change
            (.lookup activation.method offset (machine.heap.classOf receiver)
              (machine.heap.shapeFor receiver (machine.heap.classOf receiver)) selector))
        (machine.heap.lookupCached (machine.heap.classOf receiver)
          (machine.heap.shapeFor receiver (machine.heap.classOf receiver)) selector
          (machine.heap.site activation.method offset).cache).1
        (machine.heap.classOf receiver) receiver selector arguments
        fun answer => (.next, activation.answered below arguments answer)) ∧
    (∀ publisher classes objects object, machine.heap.Laid publisher classes objects →
      objects object → receiver = .object object → machine.heap.isStale object = true →
      ∃ after, activation.send call offset literal arity machine = .ok (.retry, activation) after ∧
        after.heap.isStale object = false ∧
        activation.Presents after literal arity selector receiver arguments below) ∧
    (∀ length, machine.heap.Coherent →
      machine.heap.code.Stands activation.method offset (.send literal arity) length →
      activation.sendInlined call offset literal arity machine =
        activation.send call offset literal arity machine) ∧
    (∀ holder, machine.heap.holder? (.method activation.method) = some holder →
      (∀ superclass, (machine.heap.classes.get holder).superclass = some superclass →
        (activation.quickSuperSend call offset literal arity).Delivers call machine
          (machine.change (.lookup activation.method offset superclass
            (machine.heap.classes.get superclass).layout selector))
          (machine.heap.lookupCached superclass (machine.heap.classes.get superclass).layout
            selector (machine.heap.site activation.method offset).cache).1
          superclass receiver selector arguments
          fun answer => (.next, activation.answered below arguments answer)) ∧
      ((machine.heap.classes.get holder).superclass = none →
        (activation.quickSuperSend call offset literal arity).Delivers call machine machine none
          holder receiver selector arguments
          fun answer => (.next, activation.answered below arguments answer))) ∧
    (Arguments.spread arguments).toList = arguments ∧
    (∀ heap : Heap, ¬heap.arrays.Has heap.arrays.next ∧
      (heap.addArray arguments.toArray).2.arrays.get heap.arrays.next = arguments.toArray) ∧
    ∀ (fuel : Nat) (receiver : Value) (passed : Arguments) (machine : Machine),
      (∀ method captured locals needsContext,
        (machine.heap.methods.get method).scope.own = .of captured locals needsContext →
        (machine.heap.methods.get method).argumentCount = passed.toList.length + 1 →
        ∃ frame after, Engine.invoke (fuel + 1) (.method method) receiver passed machine =
            Engine.activate (Activation.runIn (Engine.invoke fuel) fuel) fuel method frame after ∧
          frame.Seats after.heap (.of captured locals needsContext) receiver passed.toList) ∧
      ∀ primitive operation,
        OperationEntry.table[(machine.heap.primitives.get primitive).index]? = some operation →
        Engine.invoke (fuel + 1) (.primitive primitive) receiver passed machine =
          operation.apply (Engine.invoke fuel) fuel receiver passed.toList machine := by
  refine ⟨presents.send offset, fun publisher classes objects object laid mine same stale =>
      presents.send_of_stale offset laid mine same stale,
    fun length coherent stands => Activation.sendInlined_eq_send coherent stands,
    fun holder held => ⟨fun superclass above => presents.quickSuperSend offset held above,
      fun root => ?_⟩,
    Arguments.toList_spread arguments, fun heap => ⟨?_, Table.get_add_next _ _⟩,
    fun fuel receiver passed machine => ⟨fun method captured locals needsContext level count =>
      Engine.invoke_method fuel receiver passed level count, fun primitive operation found =>
      Engine.invoke_primitive fuel receiver passed found⟩⟩
  · refine .of_eq ?_ (Activation.completeSend_delivers presents.values _ _)
    rw [Activation.quickSuperSend_of_root presents.named held root, presents.count]
  · exact fun has => Table.ne_next_of_has _ _ has rfl

/-! ### A captured argument -/

/-- A method of three arguments, of which a block captures the second one. -/
def takingThree : Method :=
  { (default : Method) with
    signature := ⟨0⟩
    code := (Instruction.encode .returnSelf).toArray
    scope := .outermost (.of [false, true, false] [] false)
    maxStack := 1 }

/-- A method that sends three arguments by the count of the selector. -/
def givingThree : Method :=
  { (default : Method) with
    signature := ⟨1⟩
    code := (Instruction.encode (.send 0 .ofSelector)).toArray
    literals := #[.symbol ⟨0⟩]
    maxStack := 5 }

/-- A class that has the method of three arguments, and an object of it. -/
def givingMachine : Machine :=
  let named := ((default : Heap).intern "first:second:third:").2
  let methods := ((named.addClass ⟨1⟩ none []).2.addMethod takingThree).2.addMethod givingThree
  { (default : Machine) with
    heap := (Change.addInstance ⟨0⟩).apply (methods.2.install ⟨0⟩ (.method ⟨0⟩)) }

/-- The object and one, two and three are on the stack above nil. -/
def givesThree : Activation where
  method := ⟨1⟩
  frame := default
  stack := ⟨[.integer 3, .integer 2, .integer 1, .object ⟨0⟩, .nil], 0⟩

/-- The three arguments come to the two slots of the frame and to the one of the context. -/
theorem three_arguments_are_seated :
    givesThree.Presents givingMachine 0 .ofSelector ⟨0⟩ (.object ⟨0⟩)
        [.integer 1, .integer 2, .integer 3] [.nil] ∧
      ∃ looked frame after,
        givesThree.send (Engine.invoke 2) 0 0 .ofSelector givingMachine =
          ((fun answer => (.next, { givesThree with stack := ⟨[answer, .nil], 3⟩ })) <$>
            Engine.invoke 2 (.method ⟨0⟩) (.object ⟨0⟩)
              (.many [.integer 1, .integer 2, .integer 3])) looked ∧
        Engine.invoke 2 (.method ⟨0⟩) (.object ⟨0⟩)
            (.many [.integer 1, .integer 2, .integer 3]) looked =
          Engine.activate (Activation.runIn (Engine.invoke 1) 1) 1 ⟨0⟩ frame after ∧
        frame.at? after.heap (.frame 0) = some (.object ⟨0⟩) ∧
        frame.at? after.heap (.inner 0) = some (.object ⟨0⟩) ∧
        frame.at? after.heap (.frame 1) = some (.integer 1) ∧
        frame.at? after.heap (.inner 1) = some (.integer 2) ∧
        frame.at? after.heap (.frame 2) = some (.integer 3) := by
  have presents : givesThree.Presents givingMachine 0 .ofSelector ⟨0⟩ (.object ⟨0⟩)
      [.integer 1, .integer 2, .integer 3] [.nil] :=
    ⟨rfl, by decide +kernel, by decide +kernel⟩
  obtain ⟨through, -, -, -, -, -, calls⟩ :=
    sends_pass_receiver_and_arguments presents (Engine.invoke 2) 0
  have sent := (through (by decide +kernel)).called (.method ⟨0⟩) (by decide +kernel)
  generalize looked : (givingMachine.change _).change _ = between at sent
  obtain ⟨frame, after, ran, seats⟩ := (calls 1 (.object ⟨0⟩)
    (.many [.integer 1, .integer 2, .integer 3]) between).1 ⟨0⟩ [false, true, false] [] false
      (by subst looked; decide +kernel) (by subst looked; decide +kernel)
  have seated (index : Nat) (value : Value) (place : VariablePlace)
      (given : [Value.integer 1, .integer 2, .integer 3][index]? = some value)
      (declared : (ScopeLevel.of [false, true, false] [] false).arguments[index]? = some place) :
      frame.at? after.heap place = some value := by
    obtain ⟨other, found, holds⟩ := seats.argument index value given
    rw [declared] at found
    cases found
    exact holds
  exact ⟨presents, _, frame, after, sent, ran, seats.own, seats.context rfl,
    seated 0 _ _ rfl rfl, seated 1 _ _ rfl rfl, seated 2 _ _ rfl rfl⟩

end ObjectMachine
