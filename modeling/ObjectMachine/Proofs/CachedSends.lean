/-
This file reads sends at call sites as lookups. A send to a current receiver, and a super
send, call what the lookup through the cache of the site gives, whatever the cache holds;
they record the class of the receiver and what has been looked up.
-/

import ObjectMachine.Proofs.Lookup
import ObjectMachine.Proofs.Simulation
import ObjectMachine.Proofs.Suspension

namespace ObjectMachine

/-- Recording a class leaves the cache of the site and what it depends on. -/
theorem Machine.lookupCached_receive (machine : Machine) (method : MethodId) (offset : Nat)
    (cls : ClassId) (shape : ShapeId) (selector : Symbol) :
    (machine.change (.receive method offset cls)).heap.lookupCached cls shape selector
      ((machine.change (.receive method offset cls)).heap.site method offset).cache =
    machine.heap.lookupCached cls shape selector (machine.heap.site method offset).cache := by
  have cache : ((machine.change (.receive method offset cls)).heap.site method offset).cache =
      (machine.heap.site method offset).cache := by
    rcases machine.heap.site_modifySite_cases method method offset offset
      ({ · with receiverClass := some cls }) with same | ⟨-, -, same⟩
    · exact (congrArg Site.cache same :)
    · exact (congrArg Site.cache same :)
  rw [cache]
  exact machine.heap.lookupCached_withStates _ cls shape selector _

namespace Activation

variable {call : Caller} {activation : Activation} {offset : Nat} {literal : UInt8}
  {arity : Arity} {selector : Symbol} {machine : Machine}

theorem valueCount_of_named
    (named : machine.heap.code.literal? activation.method literal = some (.symbol selector)) :
    valueCount selector arity machine = .ok (Instruction.valueCount
      (machine.heap.code.arityOf activation.method) literal arity) machine := by
  cases arity with
  | ofSelector =>
    show EStateM.Result.ok (machine.heap.symbols.arity selector) machine = _
    rw [Instruction.valueCount, Arity.fixed?, Option.getD_none, Code.arityOf_symbol named]
    rfl
  | _ => rfl

/-- A send to a current receiver calls what the cache of the site gives for it. -/
theorem send_through_cache
    (named : machine.heap.code.literal? activation.method literal = some (.symbol selector))
    {receiver : Value}
    (found : activation.stack.peek? (Instruction.valueCount
      (machine.heap.code.arityOf activation.method) literal arity - 1) = some receiver)
    (current : machine.heap.isStaleValue receiver = false) :
    activation.send call offset literal arity machine =
      activation.completeSend call
        (machine.heap.lookupCached (machine.heap.classOf receiver)
          (machine.heap.shapeFor receiver (machine.heap.classOf receiver)) selector
          (machine.heap.site activation.method offset).cache).1
        (machine.heap.classOf receiver) selector
        (Instruction.valueCount (machine.heap.code.arityOf activation.method) literal arity)
        ((machine.change (.receive activation.method offset (machine.heap.classOf receiver))).change
          (.lookup activation.method offset (machine.heap.classOf receiver)
            (machine.heap.shapeFor receiver (machine.heap.classOf receiver)) selector)) := by
  rw [send_of_current named (valueCount_of_named named) found current,
    ← machine.lookupCached_receive]
  rfl

/-- A super send looks the selector up above the holder, and from a root it finds nothing. -/
theorem quickSuperSendAttempt_of_held
    (named : machine.heap.code.literal? activation.method literal = some (.symbol selector))
    {holder : ClassId}
    (held : machine.heap.holder? (.method activation.method) = some holder) :
    activation.quickSuperSendAttempt offset literal arity machine =
      match (machine.heap.classes.get holder).superclass with
      | some superclass =>
        (activation.lookupAtSite offset superclass (machine.heap.classes.get superclass).layout
            selector >>= fun found =>
          activation.foundCall found superclass selector (Instruction.valueCount
            (machine.heap.code.arityOf activation.method) literal arity)) machine
      | none => activation.foundCall none holder selector (Instruction.valueCount
          (machine.heap.code.arityOf activation.method) literal arity) machine := by
  have holderRead : Engine.heapValue (·.holder? (.method activation.method)) machine =
      .ok (some holder) machine := congrArg (EStateM.Result.ok · machine) held
  rw [quickSuperSendAttempt, Engine.bind_of_ok (selector_of_named named),
    Engine.bind_of_ok (valueCount_of_named named), Engine.bind_of_ok holderRead]
  dsimp only
  cases above : (machine.heap.classes.get holder).superclass with
  | some superclass =>
    have superclassRead :
        Engine.heapValue (fun heap => (heap.classes.get holder).superclass) machine =
          .ok (some superclass) machine := congrArg (EStateM.Result.ok · machine) above
    rw [Engine.bind_of_ok superclassRead]
    rfl
  | none =>
    have superclassRead :
        Engine.heapValue (fun heap => (heap.classes.get holder).superclass) machine =
          .ok none machine := congrArg (EStateM.Result.ok · machine) above
    rw [Engine.bind_of_ok superclassRead]

/-- A super send is about to call what the cache of the site gives for the superclass's layout. -/
theorem quickSuperSendAttempt_through_cache
    (named : machine.heap.code.literal? activation.method literal = some (.symbol selector))
    {holder superclass : ClassId}
    (held : machine.heap.holder? (.method activation.method) = some holder)
    (above : (machine.heap.classes.get holder).superclass = some superclass) :
    activation.quickSuperSendAttempt offset literal arity machine =
      activation.foundCall
        (machine.heap.lookupCached superclass (machine.heap.classes.get superclass).layout selector
          (machine.heap.site activation.method offset).cache).1
        superclass selector
        (Instruction.valueCount (machine.heap.code.arityOf activation.method) literal arity)
        (machine.change (.lookup activation.method offset superclass
          (machine.heap.classes.get superclass).layout selector)) := by
  rw [quickSuperSendAttempt_of_held named held, above]
  rfl

/-- A super send calls what the cache of the site gives for the layout of the superclass. -/
theorem quickSuperSend_through_cache
    (named : machine.heap.code.literal? activation.method literal = some (.symbol selector))
    {holder superclass : ClassId}
    (held : machine.heap.holder? (.method activation.method) = some holder)
    (above : (machine.heap.classes.get holder).superclass = some superclass) :
    activation.quickSuperSend call offset literal arity machine =
      activation.completeSend call
        (machine.heap.lookupCached superclass (machine.heap.classes.get superclass).layout selector
          (machine.heap.site activation.method offset).cache).1
        superclass selector
        (Instruction.valueCount (machine.heap.code.arityOf activation.method) literal arity)
        (machine.change (.lookup activation.method offset superclass
          (machine.heap.classes.get superclass).layout selector)) := by
  rw [quickSuperSend_eq, completeSend_eq]
  exact Engine.bind_congr (quickSuperSendAttempt_through_cache named held above)

end Activation

end ObjectMachine
