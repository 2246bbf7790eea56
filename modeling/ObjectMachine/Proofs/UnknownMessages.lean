/-
This file says which class is asked for the handler of a message that nothing has been found
for. Sends at call sites, and sends that do not come from code, ask the class of the receiver.
A super send asks the class that its lookup began at, the superclass of where the running method
is installed, and where there is none that class itself. So it never comes to a handler that a
class further in has, be it that of the receiver; as long as no class there has one, all of them
come to the same handler. The handler gets the selector and the arguments in their order.
-/

import ObjectMachine.Proofs.InstalledMethods

namespace ObjectMachine

/-! ### Asking a class for a handler -/

/--
Starting from `before`, the computation asks a class of `machine` for the handler of a message.
It goes on with the answer of the handler, of which `resume` makes its result; where the class
has no handler, it ends with an error that says so.
-/
structure Engine.Asks {α : Type} (computation : Engine α) (call : Caller)
    (before machine : Machine) (asked : ClassId) (receiver : Value) (selector : Symbol)
    (arguments : List Value) (resume : Value → α) : Prop where
  handled : ∀ handler,
    machine.heap.lookup? asked machine.selectors.doesNotUnderstand = some handler →
      computation before = (resume <$> call handler receiver
        (.two (.symbol selector) (.array machine.heap.arrays.next)))
          { machine with heap := (machine.heap.addArray arguments.toArray).2 }
  unhandled : machine.heap.lookup? asked machine.selectors.doesNotUnderstand = none →
    computation before = .error (.error (.missingHandler (machine.heap.symbols.text selector)
      "doesNotUnderstand:arguments:")) machine

namespace Engine

variable {call : Caller} {machine : Machine} {asked : ClassId} {receiver : Value}
  {selector : Symbol} {arguments : List Value}

theorem doesNotUnderstand_asks :
    (doesNotUnderstand call receiver asked selector arguments).Asks call machine machine asked
      receiver selector arguments id where
  handled handler found := by
    have looked : heapValue (·.lookup? asked machine.selectors.doesNotUnderstand) machine =
        .ok (some handler) machine := congrArg (EStateM.Result.ok · machine) found
    have selectors : (get : Engine Machine) machine = .ok machine machine := rfl
    rw [doesNotUnderstand, bind_of_ok selectors, bind_of_ok looked, id_map]
    rfl
  unhandled found := by
    have looked : heapValue (·.lookup? asked machine.selectors.doesNotUnderstand) machine =
        .ok none machine := congrArg (EStateM.Result.ok · machine) found
    have selectors : (get : Engine Machine) machine = .ok machine machine := rfl
    rw [doesNotUnderstand, bind_of_ok selectors, bind_of_ok looked]
    rfl

/-- What is done with the answer is done with that of the handler. -/
theorem Asks.map {α β : Type} {computation : Engine α} {resume : Value → α}
    {before : Machine} (asks : computation.Asks call before machine asked receiver selector
      arguments resume) (change : α → β) :
    (change <$> computation).Asks call before machine asked receiver selector arguments
      fun answer => change (resume answer) where
  handled handler found := by
    have same : (change <$> computation) before = (change <$> (resume <$> call handler receiver
        (.two (.symbol selector) (.array machine.heap.arrays.next))))
          { machine with heap := (machine.heap.addArray arguments.toArray).2 } := by
      rw [map_eq_pure_bind, map_eq_pure_bind change]
      show EStateM.bind _ _ _ = EStateM.bind _ _ _
      rw [EStateM.bind, EStateM.bind, asks.handled handler found]
    rw [same, Functor.map_map]
  unhandled found := by
    rw [map_eq_pure_bind, bind_of_error (asks.unhandled found)]

/-- Where a computation does the same as another one, it asks the same. -/
theorem Asks.of_eq {α : Type} {first second : Engine α} {resume : Value → α}
    {before other : Machine} (same : first before = second other)
    (asks : second.Asks call other machine asked receiver selector arguments resume) :
    first.Asks call before machine asked receiver selector arguments resume where
  handled handler found := same.trans (asks.handled handler found)
  unhandled found := same.trans (asks.unhandled found)

end Engine

/-! ### Sends that fail -/

theorem OperandStack.take?_of_values {stack : OperandStack} {arguments below : List Value}
    (values : stack.values = arguments.reverse ++ below) :
    stack.take? arguments.length = some (arguments, ⟨below, stack.room + arguments.length⟩) := by
  have deep : arguments.length ≤ stack.depth := by
    rw [depth, values, List.length_append, List.length_reverse]
    omega
  rw [take?, if_pos deep, values, List.take_left' List.length_reverse,
    List.drop_left' List.length_reverse, List.reverse_reverse]

namespace Activation

variable {call : Caller} {activation : Activation} {machine : Machine} {asked : ClassId}
  {receiver : Value} {selector : Symbol} {arguments below : List Value}

/-- The activation once a send of so many arguments has been answered. -/
def answered (activation : Activation) (below arguments : List Value) (answer : Value) :
    Activation :=
  { activation with stack := ⟨answer :: below, activation.stack.room + arguments.length⟩ }

/-- A send for which nothing has been found takes its values off the stack and asks. -/
theorem completeSend_asks
    (presents : activation.stack.values = arguments.reverse ++ receiver :: below) :
    (activation.completeSend call none asked selector (arguments.length + 1)).Asks call machine
      machine asked receiver selector arguments
      fun answer => (.next, activation.answered below arguments answer) := by
  have completes : activation.completeSend call none asked selector (arguments.length + 1) =
      (fun answer => (.next, activation.answered below arguments answer)) <$>
        Engine.doesNotUnderstand call receiver asked selector arguments := by
    rw [completeSend, notUnderstoodFromStack, Nat.add_sub_cancel, take,
      OperandStack.take?_of_values presents, map_eq_pure_bind]
    simp only [orStackFault, pop, OperandStack.pop?, push, OperandStack.push?, pure_bind,
      bind_assoc, answered]
  rw [completes]
  exact Engine.doesNotUnderstand_asks.map _

/-- A super send from a root finds nothing, and asks the root itself. -/
theorem quickSuperSend_of_root {offset : Nat} {literal : UInt8} {arity : Arity}
    (named : machine.heap.code.literal? activation.method literal = some (.symbol selector))
    {holder : ClassId} (held : machine.heap.holder? (.method activation.method) = some holder)
    (root : (machine.heap.classes.get holder).superclass = none) :
    activation.quickSuperSend call offset literal arity machine =
      activation.completeSend call none holder selector
        (Instruction.valueCount (machine.heap.code.arityOf activation.method) literal arity)
        machine := by
  rw [quickSuperSend_eq, completeSend_eq]
  refine Engine.bind_congr ((quickSuperSendAttempt_of_held named held).trans ?_)
  rw [root]

end Activation

/-- A class finds what the classes below another one define first, and else what that one finds. -/
theorem Heap.lookup?_of_lineage {heap : Heap} {cls asked : ClassId} {nearer : List ClassId}
    (lineage : heap.lineage cls = nearer ++ heap.lineage asked) (selector : Symbol) :
    heap.lookup? cls selector =
      (nearer.findSome? (heap.localMethod? · selector)).or (heap.lookup? asked selector) := by
  rw [lookup?, lookup?, lineage, List.findSome?_append]

/--
A message that nothing is found for is answered by a handler, which gets the selector and the
arguments in order, and by an error only where the class that is asked has no handler. Sent at
a call site or from outside of code, the class of the receiver is asked, and so its own handler
gets the message. From a super send the class above the running method is asked, or the one it
is installed in if this is a root; its handler is that of the receiver's class only as long as
no class between them has one.
-/
theorem failed_sends_ask_for_a_handler (call : Caller) (machine : Machine) (selector : Symbol)
    (receiver : Value) (arguments : List Value) :
    (∀ settled, Engine.migrateIfStale receiver machine = .ok () settled →
      settled.heap.lookup? (settled.heap.classOf receiver) selector = none →
        (Engine.sendMessage call receiver selector arguments).Asks call machine settled
          (settled.heap.classOf receiver) receiver selector arguments id) ∧
    (∀ (activation : Activation) offset literal arity below,
      activation.stack.values = arguments.reverse ++ receiver :: below →
      Instruction.valueCount (machine.heap.code.arityOf activation.method) literal arity =
        arguments.length + 1 →
      activation.AtSend machine offset literal arity selector receiver →
      (machine.heap.lookupCached (machine.heap.classOf receiver)
        (machine.heap.shapeFor receiver (machine.heap.classOf receiver)) selector
        (machine.heap.site activation.method offset).cache).1 = none →
        (activation.send call offset literal arity).Asks call machine
          ((machine.change (.receive activation.method offset
            (machine.heap.classOf receiver))).change
              (.lookup activation.method offset (machine.heap.classOf receiver)
                (machine.heap.shapeFor receiver (machine.heap.classOf receiver)) selector))
          (machine.heap.classOf receiver) receiver selector arguments
          fun answer => (.next, activation.answered below arguments answer)) ∧
    (∀ (activation : Activation) offset literal arity below holder,
      activation.stack.values = arguments.reverse ++ receiver :: below →
      Instruction.valueCount (machine.heap.code.arityOf activation.method) literal arity =
        arguments.length + 1 →
      machine.heap.code.literal? activation.method literal = some (.symbol selector) →
      machine.heap.holder? (.method activation.method) = some holder →
        (∀ superclass, (machine.heap.classes.get holder).superclass = some superclass →
          (machine.heap.lookupCached superclass (machine.heap.classes.get superclass).layout
            selector (machine.heap.site activation.method offset).cache).1 = none →
            (activation.quickSuperSend call offset literal arity).Asks call machine
              (machine.change (.lookup activation.method offset superclass
                (machine.heap.classes.get superclass).layout selector))
              superclass receiver selector arguments
              fun answer => (.next, activation.answered below arguments answer)) ∧
        ((machine.heap.classes.get holder).superclass = none →
          (activation.quickSuperSend call offset literal arity).Asks call machine machine holder
            receiver selector arguments
            fun answer => (.next, activation.answered below arguments answer))) ∧
    ∀ (heap : Heap) asked nearer,
      heap.lineage (heap.classOf receiver) = nearer ++ heap.lineage asked →
      heap.lookup? (heap.classOf receiver) machine.selectors.doesNotUnderstand =
        (nearer.findSome? (heap.localMethod? · machine.selectors.doesNotUnderstand)).or
          (heap.lookup? asked machine.selectors.doesNotUnderstand) := by
  refine ⟨fun settled moves missing => ?_,
    fun activation offset literal arity below presents count sends missing => ?_,
    fun activation offset literal arity below holder presents count named held =>
      ⟨fun superclass above missing => ?_, fun root => ?_⟩,
    fun heap asked nearer lineage => Heap.lookup?_of_lineage lineage _⟩
  · have looked : Engine.heapValue (·.lookup? (settled.heap.classOf receiver) selector) settled =
        .ok none settled := congrArg (EStateM.Result.ok · settled) missing
    have cls : Engine.heapValue (·.classOf receiver) settled =
        .ok (settled.heap.classOf receiver) settled := rfl
    refine .of_eq ?_ Engine.doesNotUnderstand_asks
    rw [Engine.sendMessage, Engine.bind_of_ok moves, Engine.bind_of_ok cls,
      Engine.bind_of_ok looked]
  · refine .of_eq ((sends.completes call).trans ?_) (Activation.completeSend_asks presents)
    rw [missing, count]
  · refine .of_eq ((Activation.quickSuperSend_through_cache named held above).trans ?_)
      (Activation.completeSend_asks presents)
    rw [missing, count]
  · refine .of_eq ?_ (Activation.completeSend_asks presents)
    rw [Activation.quickSuperSend_of_root named held root, count]

/-! ### A super send past the handler of the receiver -/

/-- A handler that answers a number, whatever message it gets. -/
def handlingMethod (answer : Int64) : Method :=
  { answeringMethod answer with scope := .outermost (.of [false, false] [] false) }

/-- A method that asks for something unknown from the superclass on. -/
def strayingMethod : Method :=
  { (default : Method) with
    signature := ⟨1⟩
    code := ([.pushFrame 0, .superSend 0 .ofSelector, .returnLocal] : List Instruction).flatMap
      Instruction.encode |>.toArray
    literals := #[.symbol ⟨2⟩]
    maxStack := 1 }

/--
A class below a root has a handler that answers two, and the straying method, and there is an
object of it. The root has a handler that answers one, if it is to have one.
-/
def strayingMachine (rootHandles : Bool) : Machine :=
  let symbols := (((default : Heap).intern "doesNotUnderstand:arguments:").2.intern "ask").2
  let named := (symbols.intern "foo").2
  let classes := ((named.addClass ⟨1⟩ none []).2.addClass ⟨2⟩ (some ⟨0⟩) []).2
  let methods := ((classes.addMethod (handlingMethod 1)).2.addMethod (handlingMethod 2)).2
  let straying := (methods.addMethod strayingMethod).2
  let below := (straying.install ⟨1⟩ (.method ⟨1⟩)).install ⟨1⟩ (.method ⟨2⟩)
  let heap := if rootHandles then below.install ⟨0⟩ (.method ⟨0⟩) else below
  { (default : Machine) with
    heap := (Change.addInstance ⟨1⟩).apply heap
    config := { maxDepth := 3 } }

/-- What a message to the object comes to. -/
def Machine.objectAnswers (machine : Machine) (selector : String) : Value ⊕ Abrupt :=
  match Engine.send 9 (.object ⟨0⟩) selector [] machine with
  | .ok answer _ => .inl answer
  | .error abrupt _ => .inr abrupt

/--
The handler of the class of the object gets what the object does not understand, but not what
it is asked from the superclass on: this goes to the handler of the root, or to none.
-/
theorem super_send_passes_own_handler :
    (∀ rootHandles, (strayingMachine rootHandles).heap.lookup?
      ((strayingMachine rootHandles).heap.classOf (.object ⟨0⟩))
      (strayingMachine rootHandles).selectors.doesNotUnderstand = some (.method ⟨1⟩)) ∧
    (strayingMachine true).objectAnswers "foo" = .inl (.integer 2) ∧
    (strayingMachine true).objectAnswers "ask" = .inl (.integer 1) ∧
    (strayingMachine false).objectAnswers "foo" = .inl (.integer 2) ∧
    (strayingMachine false).objectAnswers "ask" =
      .inr (.error (.missingHandler "foo" "doesNotUnderstand:arguments:")) := by
  refine ⟨fun rootHandles => ?_, ?_⟩
  · cases rootHandles <;> decide +kernel
  · decide +kernel

/-- A method that asks for something unknown. -/
def erringMethod : Method :=
  { strayingMethod with
    code := ([.pushFrame 0, .send 0 .ofSelector, .returnLocal] : List Instruction).flatMap
      Instruction.encode |>.toArray }

/-- The root has a handler, and the erring method too. -/
def erringMachine : Machine :=
  let machine := strayingMachine true
  { machine with
    heap := (machine.heap.addMethod erringMethod).2.install ⟨0⟩ (.method ⟨3⟩) }

/-- An activation with the object on its stack, to which it is about to send. -/
def Activation.asking (method : MethodId) : Activation :=
  { (default : Activation) with method, stack := ⟨[.object ⟨0⟩], 0⟩ }

/-- The erring machine asks a class for the handler of what it does not find for the object. -/
def Engine.AsksFor {α : Type} (computation : Engine α) (machine : Machine) (asked : ClassId)
    (resume : Value → α) : Prop :=
  computation.Asks (invoke 9) erringMachine machine asked (.object ⟨0⟩) ⟨2⟩ [] resume

/--
Asked from outside of code or by a send, the object comes to the handler of its class. By a
super send in the class below the root it comes to that of the root, and so it does by one in
the root itself.
-/
theorem erring_object_asks_for_a_handler :
    (Engine.sendMessage (Engine.invoke 9) (.object ⟨0⟩) ⟨2⟩ []).AsksFor erringMachine ⟨1⟩ id ∧
    (∃ machine, ((Activation.asking ⟨3⟩).send (Engine.invoke 9) 1 0 .ofSelector).AsksFor machine
      ⟨1⟩ fun answer => (.next, (Activation.asking ⟨3⟩).answered [] [] answer)) ∧
    (∃ machine, ((Activation.asking ⟨2⟩).quickSuperSend (Engine.invoke 9) 1 0 .ofSelector).AsksFor
      machine ⟨0⟩ fun answer => (.next, (Activation.asking ⟨2⟩).answered [] [] answer)) ∧
    ((Activation.asking ⟨3⟩).quickSuperSend (Engine.invoke 9) 1 0 .ofSelector).AsksFor
      erringMachine ⟨0⟩ (fun answer => (.next, (Activation.asking ⟨3⟩).answered [] [] answer)) ∧
    erringMachine.heap.lookup? ⟨1⟩ erringMachine.selectors.doesNotUnderstand =
      ([⟨1⟩].findSome?
        (erringMachine.heap.localMethod? · erringMachine.selectors.doesNotUnderstand)).or
          (erringMachine.heap.lookup? ⟨0⟩ erringMachine.selectors.doesNotUnderstand) := by
  have current : erringMachine.heap.isStaleValue (.object ⟨0⟩) = false := by decide +kernel
  have cls : erringMachine.heap.classOf (.object ⟨0⟩) = ⟨1⟩ := by decide +kernel
  have sends : (Activation.asking ⟨3⟩).AtSend erringMachine 1 0 .ofSelector ⟨2⟩ (.object ⟨0⟩) :=
    ⟨⟨2, .encoded (Code.encoded_of_toOption (by decide +kernel))⟩, by decide +kernel,
      by decide +kernel, current⟩
  obtain ⟨outside, plainly, above, lineage⟩ := failed_sends_ask_for_a_handler
    (Engine.invoke 9) erringMachine ⟨2⟩ (.object ⟨0⟩) []
  have outside := outside _ (Engine.migrateIfStale_of_current current) (by decide +kernel)
  have plainly := plainly (.asking ⟨3⟩) 1 0 .ofSelector [] rfl (by decide +kernel) sends
    (by decide +kernel)
  have below := (above (.asking ⟨2⟩) 1 0 .ofSelector [] ⟨1⟩ rfl (by decide +kernel)
    (by decide +kernel) (by decide +kernel)).1 ⟨0⟩ (by decide +kernel) (by decide +kernel)
  have root := (above (.asking ⟨3⟩) 1 0 .ofSelector [] ⟨0⟩ rfl (by decide +kernel)
    (by decide +kernel) (by decide +kernel)).2 (by decide +kernel)
  have passes := lineage erringMachine.heap ⟨0⟩ [⟨1⟩] (by decide +kernel)
  rw [cls] at outside plainly passes
  exact ⟨outside, ⟨_, plainly⟩, ⟨_, below⟩, root, passes⟩

end ObjectMachine
