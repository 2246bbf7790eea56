/-
This file sends messages. Code sends through the inline cache of its call site. A receiver
with a superseded shape is migrated first and the send tried again, so caches only see
current shapes. A message that is not understood becomes another one, which carries the
selector and the arguments. Messages that do not come from code are sent without a cache.
-/

import ObjectMachine.Activation
import ObjectMachine.Cache

namespace ObjectMachine

namespace Engine

/-! ### Sends without a call site -/

/--
Sends `doesNotUnderstand:arguments:` in place of a message that class `cls` does not
understand.
-/
def doesNotUnderstand (call : Caller) (receiver : Value) (cls : ClassId) (selector : Symbol)
    (arguments : List Value) : Engine Value := do
  let handlerSelector := (← get).selectors.doesNotUnderstand
  match ← heapValue (·.lookup? cls handlerSelector) with
  | none => raise (.missingHandler (← symbolText selector) "doesNotUnderstand:arguments:")
  | some handler =>
    let array ← newArray arguments.toArray
    call handler receiver (.two (.symbol selector) array)

def sendMessage (call : Caller) (receiver : Value) (selector : Symbol)
    (arguments : List Value) : Engine Value := do
  migrateIfStale receiver
  let cls ← heapValue (·.classOf receiver)
  match ← heapValue (·.lookup? cls selector) with
  | some target => call target receiver (.many arguments)
  | none => doesNotUnderstand call receiver cls selector arguments

end Engine

namespace Activation

/-! ### What a send takes from the stack -/

/-- The selector a send names, or the literal that stands in its place. -/
def selector? (literal : Option Value) : Except RuntimeError Symbol :=
  match literal with
  | some (.symbol selector) => .ok selector
  | some other => .error (.wrongKind "selector" other)
  | none => .error (.wrongKind "selector" .nil)

def selector (activation : Activation) (literal : UInt8) : Engine Symbol := do
  Engine.orRaise (selector? (← activation.literal? literal))

/-- How many values a send of this selector takes, the receiver included. -/
def valueCount (selector : Symbol) (arity : Arity) : Engine Nat :=
  match arity.fixed? with
  | some count => return count
  | none => Engine.heapValue (·.symbols.arity selector)

/-- Whether the receiver below the arguments has a shape that has been superseded. -/
def hasStaleReceiver (activation : Activation) (count : Nat) : Engine Bool :=
  if count = 0 then return false
  else
    match activation.stack.peek? (count - 1) with
    | some receiver => Engine.heapValue (·.isStaleValue receiver)
    | none => return false

/-- Whether the send would meet a receiver whose shape has been superseded. -/
def meetsStaleReceiver (activation : Activation) (literal : UInt8) (arity : Arity) :
    Engine Bool := do
  let count ←
    match arity.fixed? with
    | some count => pure count
    | none =>
      match ← activation.literal? literal with
      | some (.symbol selector) => Engine.heapValue (·.symbols.arity selector)
      | _ => pure 0
  activation.hasStaleReceiver count

/-- Takes a receiver and `count - 1` arguments off the stack and calls the target. -/
def callFromStack (call : Caller) (activation : Activation) (target : Invokable)
    (count : Nat) : Engine (Value × Activation) := do
  match count with
  | 1 =>
    let (receiver, activation) ← activation.pop
    return (← call target receiver .none, activation)
  | 2 =>
    let (first, activation) ← activation.pop
    let (receiver, activation) ← activation.pop
    return (← call target receiver (.one first), activation)
  | 3 =>
    let (second, activation) ← activation.pop
    let (first, activation) ← activation.pop
    let (receiver, activation) ← activation.pop
    return (← call target receiver (.two first second), activation)
  | count =>
    let (arguments, activation) ← activation.take (count - 1)
    let (receiver, activation) ← activation.pop
    return (← call target receiver (.many arguments), activation)

def notUnderstoodFromStack (call : Caller) (activation : Activation) (cls : ClassId)
    (selector : Symbol) (count : Nat) : Engine (Value × Activation) := do
  let (arguments, activation) ← activation.take (count - 1)
  let (receiver, activation) ← activation.pop
  return (← Engine.doesNotUnderstand call receiver cls selector arguments, activation)

/-- Calls what was found, or reports that nothing was, and pushes the answer. -/
def completeSend (call : Caller) (activation : Activation) (found : Option Invokable)
    (cls : ClassId) (selector : Symbol) (count : Nat) : Engine (Flow × Activation) := do
  let (result, activation) ←
    match found with
    | some target => activation.callFromStack call target count
    | none => activation.notUnderstoodFromStack call cls selector count
  return (.next, ← activation.push result)

/-! ### Sends at a call site -/

/-- Looks a selector up through the inline cache of the site at `offset`. -/
def lookupAtSite (activation : Activation) (offset : Nat) (cls : ClassId) (shape : ShapeId)
    (selector : Symbol) : Engine (Option Invokable) := do
  let (found, cache) ← Engine.heapValue fun heap =>
    heap.lookupCached cls shape selector (heap.site activation.method offset).cache
  Engine.changeHeap (·.modifySite activation.method offset ({ · with cache }))
  return found

def send (call : Caller) (activation : Activation) (offset : Nat) (literal : UInt8)
    (arity : Arity) : Engine (Flow × Activation) := do
  let selector ← activation.selector literal
  let count ← valueCount selector arity
  let receiver ← activation.peek (count - 1)
  if ← Engine.heapValue (·.isStaleValue receiver) then
    Engine.migrateIfStale receiver
    Engine.changeHeap fun heap =>
      heap.modifySite activation.method offset fun site =>
        { site with cache := site.cache.dropStale heap.shapes }
    return (.retry, activation)
  else
    let cls ← Engine.heapValue (·.classOf receiver)
    Engine.changeHeap
      (·.modifySite activation.method offset ({ · with receiverClass := some cls }))
    let shape ← Engine.heapValue (·.shapeFor receiver cls)
    let found ← activation.lookupAtSite offset cls shape selector
    activation.completeSend call found cls selector count

/--
A send in threaded code. When the receiver has the class recorded at the site and the
shape of the primary entry, that entry's target is called without a lookup; anything
else is an ordinary send.
-/
def sendInlined (call : Caller) (activation : Activation) (offset : Nat) (literal : UInt8)
    (arity : Arity) : Engine (Flow × Activation) := do
  let site ← Engine.heapValue (·.site activation.method offset)
  match arity.fixed?, site.receiverClass, site.cache.primary with
  | some count, some expected, some entry =>
    let receiver ← activation.peek (count - 1)
    let hit ← Engine.heapValue fun heap =>
      let cls := heap.classOf receiver
      let shape := heap.shapeFor receiver cls
      cls == expected && shape == entry.shape && (heap.shapes.get shape).latest
    if hit then
      let (result, activation) ← activation.callFromStack call entry.target count
      return (.next, ← activation.push result)
    else activation.send call offset literal arity
  | _, _, _ => activation.send call offset literal arity

/-- A send that starts its lookup above the class in which the running method is installed. -/
def quickSuperSend (call : Caller) (activation : Activation) (offset : Nat)
    (literal : UInt8) (arity : Arity) : Engine (Flow × Activation) := do
  let selector ← activation.selector literal
  let count ← valueCount selector arity
  match ← Engine.heapValue (·.holder? (.method activation.method)) with
  | none => Engine.raise (.typeMismatch "method with a holder" "detached method")
  | some holder =>
    match ← Engine.heapValue fun heap => (heap.classes.get holder).superclass with
    | some superclass =>
      let shape ← Engine.heapValue fun heap => (heap.classes.get superclass).layout
      let found ← activation.lookupAtSite offset superclass shape selector
      activation.completeSend call found superclass selector count
    | none => activation.completeSend call none holder selector count

end Activation

end ObjectMachine
