/-
This file cuts the interpreter at its calls. What an instruction or an operation does up to
its call is a computation of its own, which ends with the call to make instead of making it, and
what it does with the answer is kept as data. Put together again, with any way to call between
them, the parts are the instruction or the operation.
-/

import ObjectMachine.Run

namespace ObjectMachine

/-- A call that is about to be made. -/
structure Call where
  target : Invokable
  receiver : Value
  arguments : Arguments
deriving DecidableEq

/-- Makes the call. -/
def Call.make (call : Caller) (made : Call) : Engine Value :=
  call made.target made.receiver made.arguments

/-! ### Messages -/

namespace Engine

/-- The call that stands for a message that is not understood. -/
def handlerCall (receiver : Value) (cls : ClassId) (selector : Symbol)
    (arguments : List Value) : Engine Call := do
  let handlerSelector := (← get).selectors.doesNotUnderstand
  match ← heapValue (·.lookup? cls handlerSelector) with
  | none => raise (.missingHandler (← symbolText selector) "doesNotUnderstand:arguments:")
  | some handler =>
    let array ← newArray arguments.toArray
    return ⟨handler, receiver, .two (.symbol selector) array⟩

/-- The call that a message leads to. -/
def messageCall (receiver : Value) (selector : Symbol) (arguments : List Value) :
    Engine Call := do
  migrateIfStale receiver
  let cls ← heapValue (·.classOf receiver)
  match ← heapValue (·.lookup? cls selector) with
  | some target => return ⟨target, receiver, .many arguments⟩
  | none => handlerCall receiver cls selector arguments

theorem raise_bind {α β : Type} (cause : RuntimeError) (next : α → Engine β) :
    raise cause >>= next = raise cause :=
  rfl

end Engine

namespace Caller

variable (call : Caller)

theorem doesNotUnderstand_eq (receiver : Value) (cls : ClassId) (selector : Symbol)
    (arguments : List Value) :
    Engine.doesNotUnderstand call receiver cls selector arguments =
      Engine.handlerCall receiver cls selector arguments >>= Call.make call := by
  unfold Engine.doesNotUnderstand Engine.handlerCall
  simp only [bind_assoc]
  refine bind_congr fun machine => bind_congr fun found => ?_
  cases found with
  | none => simp only [bind_assoc, Engine.raise_bind]
  | some handler =>
    simp only [bind_assoc, pure_bind]
    rfl

theorem sendMessage_eq (receiver : Value) (selector : Symbol) (arguments : List Value) :
    Engine.sendMessage call receiver selector arguments =
      Engine.messageCall receiver selector arguments >>= Call.make call := by
  unfold Engine.sendMessage Engine.messageCall
  simp only [bind_assoc]
  refine bind_congr fun _ => bind_congr fun cls => bind_congr fun found => ?_
  cases found with
  | none => exact doesNotUnderstand_eq call receiver cls selector arguments
  | some target => rfl

/-- The call that evaluates a block. -/
def evaluation (block : BlockId) (arguments : Arguments) : Engine Call := do
  let method ← Engine.heapValue fun heap => (heap.blocks.get block).method
  let expected ← Engine.heapValue (·.blockArity block)
  let got := arguments.toList.length + 1
  if expected = got then return ⟨.method method, .block block, arguments⟩
  else Engine.raise (.arityMismatch expected got)

theorem evaluate_eq (block : BlockId) (arguments : Arguments) :
    call.evaluate block arguments = evaluation block arguments >>= Call.make call := by
  unfold evaluate evaluation
  simp only [bind_assoc]
  refine bind_congr fun method => bind_congr fun expected => ?_
  split <;> rfl

end Caller

/-! ### Instructions -/

/-- What an instruction does with the answer of its call. -/
inductive Reply
  | push
  /-- The answer is that of the activation. -/
  | answer
deriving DecidableEq

def Reply.finish (reply : Reply) (activation : Activation) (value : Value) :
    Engine (Flow × Activation) :=
  match reply with
  | .push => return (.next, ← activation.push value)
  | .answer => return (.answer value, activation)

/-- How far an instruction gets without calling. -/
inductive Attempt
  | done (flow : Flow) (activation : Activation)
  | call (made : Call) (activation : Activation) (reply : Reply)

/-- Makes the call, if there is one, and goes on. -/
def Attempt.complete (call : Caller) : Attempt → Engine (Flow × Activation)
  | .done flow activation => return (flow, activation)
  | .call made activation reply => do reply.finish activation (← made.make call)

namespace Activation

def takeCall (activation : Activation) (target : Invokable) (count : Nat) :
    Engine (Call × Activation) := do
  match count with
  | 1 =>
    let (receiver, activation) ← activation.pop
    return (⟨target, receiver, .none⟩, activation)
  | 2 =>
    let (first, activation) ← activation.pop
    let (receiver, activation) ← activation.pop
    return (⟨target, receiver, .one first⟩, activation)
  | 3 =>
    let (second, activation) ← activation.pop
    let (first, activation) ← activation.pop
    let (receiver, activation) ← activation.pop
    return (⟨target, receiver, .two first second⟩, activation)
  | count =>
    let (arguments, activation) ← activation.take (count - 1)
    let (receiver, activation) ← activation.pop
    return (⟨target, receiver, .many arguments⟩, activation)

def takeHandlerCall (activation : Activation) (cls : ClassId) (selector : Symbol)
    (count : Nat) : Engine (Call × Activation) := do
  let (arguments, activation) ← activation.take (count - 1)
  let (receiver, activation) ← activation.pop
  return (← Engine.handlerCall receiver cls selector arguments, activation)

def foundCall (activation : Activation) (found : Option Invokable) (cls : ClassId)
    (selector : Symbol) (count : Nat) : Engine Attempt := do
  let made ←
    match found with
    | some target => activation.takeCall target count
    | none => activation.takeHandlerCall cls selector count
  return .call made.1 made.2 .push

def sendAttempt (activation : Activation) (offset : Nat) (literal : UInt8) (arity : Arity) :
    Engine Attempt := do
  let selector ← activation.selector literal
  let count ← valueCount selector arity
  let receiver ← activation.peek (count - 1)
  if ← Engine.heapValue (·.isStaleValue receiver) then
    Engine.migrateIfStale receiver
    Engine.changeHeap fun heap =>
      heap.modifySite activation.method offset fun site =>
        { site with cache := site.cache.dropStale heap.shapes }
    return .done .retry activation
  else
    let cls ← Engine.heapValue (·.classOf receiver)
    Engine.changeHeap
      (·.modifySite activation.method offset ({ · with receiverClass := some cls }))
    let shape ← Engine.heapValue (·.shapeFor receiver cls)
    let found ← activation.lookupAtSite offset cls shape selector
    activation.foundCall found cls selector count

def sendInlinedAttempt (activation : Activation) (offset : Nat) (literal : UInt8)
    (arity : Arity) : Engine Attempt := do
  let site ← Engine.heapValue (·.site activation.method offset)
  match arity.fixed?, site.receiverClass, site.cache.primary with
  | some count, some expected, some entry =>
    let receiver ← activation.peek (count - 1)
    let hit ← Engine.heapValue fun heap =>
      let cls := heap.classOf receiver
      let shape := heap.shapeFor receiver cls
      cls == expected && shape == entry.shape && (heap.shapes.get shape).latest
    if hit then
      let made ← activation.takeCall entry.target count
      return .call made.1 made.2 .push
    else activation.sendAttempt offset literal arity
  | _, _, _ => activation.sendAttempt offset literal arity

def quickSuperSendAttempt (activation : Activation) (offset : Nat) (literal : UInt8)
    (arity : Arity) : Engine Attempt := do
  let selector ← activation.selector literal
  let count ← valueCount selector arity
  match ← Engine.heapValue (·.holder? (.method activation.method)) with
  | none => Engine.raise (.typeMismatch "method with a holder" "detached method")
  | some holder =>
    match ← Engine.heapValue fun heap => (heap.classes.get holder).superclass with
    | some superclass =>
      let shape ← Engine.heapValue fun heap => (heap.classes.get superclass).layout
      let found ← activation.lookupAtSite offset superclass shape selector
      activation.foundCall found superclass selector count
    | none => activation.foundCall none holder selector count

def globalAttempt (activation : Activation) (offset : Nat) (literal : UInt8) :
    Engine Attempt := do
  match ← activation.literal offset literal with
  | .symbol name =>
    match (← get).globals.get? name with
    | some value => return .done .next (← activation.push value)
    | none =>
      let receiver ← activation.frame.homeReceiver
      let made ← Engine.messageCall receiver (← get).selectors.unknownGlobal [.symbol name]
      return .call made activation .push
  | other => Engine.raise (.wrongKind "symbol" other)

/-- The message to a home receiver whose activation a block can no longer return from. -/
def escapeCall (activation : Activation) : Engine Call := do
  let receiver ← activation.frame.homeReceiver
  Engine.messageCall receiver (← get).selectors.escapedBlock [activation.frame.receiver]

def returnNonLocalAttempt (activation : Activation) (level : UInt8) : Engine Attempt := do
  let (value, activation) ← activation.pop
  if level = 0 then return .done (.answer value) activation
  let block ← activation.frame.blockAt level.toNat
  match ← Engine.heapValue fun heap => (heap.blocks.get block).context with
  | none => Engine.raise (.wrongKind "block with a context" .nil)
  | some target =>
    if ← Engine.heapValue (·.isHomeRunning block) then
      throw (.nonLocalReturn value target)
    else
      let made ← activation.escapeCall
      return .call made activation .answer

/-- Not a way to call: what does not call never gets to use it. -/
def noCall : Caller := fun _ _ _ => throw .outOfFuel

/-- Runs an instruction as far as it gets without calling. -/
def begin (activation : Activation) (offset : Nat) (instruction : Instruction) :
    Engine Attempt :=
  match instruction with
  | .send literal arity => activation.sendAttempt offset literal arity
  | .quickSuperSend literal arity => activation.quickSuperSendAttempt offset literal arity
  | .pushGlobal literal => activation.globalAttempt offset literal
  | .returnNonLocal level => activation.returnNonLocalAttempt level
  | other => do
    let made ← activation.execute noCall offset other
    return .done made.1 made.2

def beginThreaded (activation : Activation) (offset : Nat) (instruction : Instruction) :
    Engine Attempt :=
  match instruction with
  | .send literal arity => activation.sendInlinedAttempt offset literal arity
  | other => activation.begin offset other

section

variable (call : Caller) (activation : Activation)

theorem callFromStack_eq (target : Invokable) (count : Nat) :
    activation.callFromStack call target count =
      activation.takeCall target count >>= fun made => do
        return (← made.1.make call, made.2) := by
  unfold callFromStack takeCall
  split <;> simp only [bind_assoc] <;> rfl

theorem notUnderstoodFromStack_eq (cls : ClassId) (selector : Symbol) (count : Nat) :
    activation.notUnderstoodFromStack call cls selector count =
      activation.takeHandlerCall cls selector count >>= fun made => do
        return (← made.1.make call, made.2) := by
  unfold notUnderstoodFromStack takeHandlerCall
  simp only [bind_assoc, Caller.doesNotUnderstand_eq]
  rfl

theorem completeSend_eq (found : Option Invokable) (cls : ClassId) (selector : Symbol)
    (count : Nat) :
    activation.completeSend call found cls selector count =
      activation.foundCall found cls selector count >>= Attempt.complete call := by
  unfold completeSend foundCall
  cases found with
  | some target =>
    simp only [callFromStack_eq, bind_assoc, pure_bind]
    rfl
  | none =>
    simp only [notUnderstoodFromStack_eq, bind_assoc, pure_bind]
    rfl

theorem send_eq (offset : Nat) (literal : UInt8) (arity : Arity) :
    activation.send call offset literal arity =
      activation.sendAttempt offset literal arity >>= Attempt.complete call := by
  unfold send sendAttempt
  simp only [bind_assoc]
  refine bind_congr fun selector => bind_congr fun count => bind_congr fun receiver =>
    bind_congr fun stale => ?_
  split
  · simp only [bind_assoc]
    rfl
  · simp only [bind_assoc, completeSend_eq]

theorem sendInlined_eq (offset : Nat) (literal : UInt8) (arity : Arity) :
    activation.sendInlined call offset literal arity =
      activation.sendInlinedAttempt offset literal arity >>= Attempt.complete call := by
  unfold sendInlined sendInlinedAttempt
  rw [bind_assoc]
  refine bind_congr fun site => ?_
  cases arity.fixed? with
  | none => exact send_eq call activation offset literal arity
  | some count =>
    cases site.receiverClass with
    | none => exact send_eq call activation offset literal arity
    | some expected =>
      cases site.cache.primary with
      | none => exact send_eq call activation offset literal arity
      | some entry =>
        simp only [bind_assoc]
        refine bind_congr fun receiver => bind_congr fun hit => ?_
        cases hit with
        | true =>
          simp only [if_true, bind_assoc, callFromStack_eq]
          rfl
        | false => exact send_eq call activation offset literal arity

theorem quickSuperSend_eq (offset : Nat) (literal : UInt8) (arity : Arity) :
    activation.quickSuperSend call offset literal arity =
      activation.quickSuperSendAttempt offset literal arity >>= Attempt.complete call := by
  unfold quickSuperSend quickSuperSendAttempt
  simp only [bind_assoc]
  refine bind_congr fun selector => bind_congr fun count => bind_congr fun holder => ?_
  cases holder with
  | none => rfl
  | some holder =>
    simp only [bind_assoc]
    refine bind_congr fun superclass => ?_
    cases superclass with
    | none => exact completeSend_eq call activation none holder selector count
    | some superclass => simp only [bind_assoc, completeSend_eq]

theorem globalValue_eq (offset : Nat) (literal : UInt8) :
    (do
      return (Flow.next, ← activation.push (← activation.globalValue call offset literal))) =
      activation.globalAttempt offset literal >>= Attempt.complete call := by
  unfold globalValue globalAttempt
  simp only [bind_assoc]
  refine bind_congr fun value => ?_
  cases value with
  | symbol name =>
    simp only [bind_assoc]
    refine bind_congr fun machine => ?_
    cases machine.globals.get? name with
    | some value => simp only [bind_assoc, pure_bind]; rfl
    | none =>
      simp only [bind_assoc, Caller.sendMessage_eq]
      rfl
  | _ => rfl

theorem returnNonLocal_eq (level : UInt8) :
    activation.returnNonLocal call level =
      activation.returnNonLocalAttempt level >>= Attempt.complete call := by
  unfold returnNonLocal returnNonLocalAttempt
  rw [bind_assoc]
  refine bind_congr fun popped => ?_
  obtain ⟨value, activation⟩ := popped
  by_cases own : level = 0
  · simp only [if_pos own]
    rfl
  · simp only [if_neg own, bind_assoc]
    refine bind_congr fun block => bind_congr fun context => ?_
    cases context with
    | none => rfl
    | some target =>
      simp only [bind_assoc]
      refine bind_congr fun running => ?_
      cases running with
      | true => rfl
      | false =>
        simp only [escapeCall, Caller.sendMessage_eq, bind_assoc, Bool.false_eq_true,
          if_false]
        rfl

/-- An instruction is its attempt with the call made. -/
theorem execute_complete (offset : Nat) (instruction : Instruction) :
    activation.execute call offset instruction =
      activation.begin offset instruction >>= Attempt.complete call := by
  cases instruction with
  | send literal arity => exact send_eq call activation offset literal arity
  | quickSuperSend literal arity => exact quickSuperSend_eq call activation offset literal arity
  | pushGlobal literal => exact globalValue_eq call activation offset literal
  | returnNonLocal level => exact returnNonLocal_eq call activation level
  | _ =>
    unfold begin
    rw [bind_assoc]
    exact (bind_pure _).symm

theorem executeThreaded_complete (offset : Nat) (instruction : Instruction) :
    activation.executeThreaded call offset instruction =
      activation.beginThreaded offset instruction >>= Attempt.complete call := by
  cases instruction with
  | send literal arity => exact sendInlined_eq call activation offset literal arity
  | _ =>
    unfold executeThreaded beginThreaded
    exact execute_complete call activation offset _

end

end Activation

/-! ### Operations -/

/-- What an operation still has to do when a call of its answers. -/
inductive Pending
  /-- The answer is that of the operation. -/
  | pass
  /-- The block has been called with a number. -/
  | eachInteger (block : BlockId) (limit value : Int64) (receiver : Value)
  /-- The element at the position is to be called with next. -/
  | eachElement (array : ArrayId) (block : BlockId) (position : Nat) (receiver : Value)
  /-- The answer is that of a loop's condition. -/
  | whileCondition (condition : BlockId) (body : Value)
  /-- The answer is that of a loop's body. -/
  | whileBody (condition : BlockId) (body : Value)

/-- How far an operation gets without calling. -/
inductive OperationStep
  | answer (value : Value)
  | call (made : Call) (pending : Pending)

namespace Operation

/-- Evaluates a block and then goes on; any other value stands for its own answer. -/
def valueStep : Value → Engine OperationStep
  | .block block => return .call (← Caller.evaluation block .none) .pass
  | other => return .answer other

def integerStep (block : BlockId) (limit : Int64) (receiver : Value) (value : Int64) :
    Engine OperationStep := do
  if value ≤ limit then
    let made ← Caller.evaluation block (.one (.integer value))
    return .call made (.eachInteger block limit value receiver)
  else return .answer receiver

def elementStep (array : ArrayId) (block : BlockId) (receiver : Value) (position : Nat) :
    Engine OperationStep := do
  match ← arrayElement? array position with
  | none => return .answer receiver
  | some element =>
    let made ← Caller.evaluation block (.one element)
    return .call made (.eachElement array block (position + 1) receiver)

def conditionStep (condition : BlockId) (body : Value) : Engine OperationStep := do
  return .call (← Caller.evaluation condition .none) (.whileCondition condition body)

/-- Runs an operation as far as it gets without calling. -/
def begin (operation : Operation) (receiver : Value) (arguments : List Value) :
    Engine OperationStep := do
  match operation with
  | .toDo =>
    let start ← asInteger receiver
    let limit ←
      match ← argument arguments 0 with
      | .double limit => pure limit.floorInt64
      | other => asInteger other
    let block ← asBlock (← argument arguments 1)
    integerStep block limit receiver start
  | .ifTrue =>
    if ← asTruth receiver then valueStep (← argument arguments 0)
    else return .answer .nil
  | .ifFalse =>
    if ← asTruth receiver then return .answer .nil
    else valueStep (← argument arguments 0)
  | .ifTrueIfFalse =>
    let branch := if ← asTruth receiver then 0 else 1
    valueStep (← argument arguments branch)
  | .ifFalseIfTrue =>
    let branch := if ← asTruth receiver then 1 else 0
    valueStep (← argument arguments branch)
  | .and =>
    if ← asTruth receiver then valueStep (← argument arguments 0)
    else return .answer (.bool false)
  | .or =>
    if ← asTruth receiver then return .answer (.bool true)
    else valueStep (← argument arguments 0)
  | .blockValue => return .call (← Caller.evaluation (← asBlock receiver) .none) .pass
  | .blockValueWith =>
    let block ← asBlock receiver
    return .call (← Caller.evaluation block (.one (← argument arguments 0))) .pass
  | .blockValueWithWith =>
    let block ← asBlock receiver
    let first ← argument arguments 0
    return .call (← Caller.evaluation block (.two first (← argument arguments 1))) .pass
  | .whileTrue =>
    let condition ← asBlock receiver
    let body ← argument arguments 0
    conditionStep condition body
  | .arrayDo =>
    let array ← asArray receiver
    let block ← asBlock (← argument arguments 0)
    elementStep array block receiver 0
  | other => return .answer (← other.apply Activation.noCall 0 receiver arguments)

end Operation

/-- Goes on with an operation whose call has answered. -/
def Pending.resume (pending : Pending) (value : Value) : Engine OperationStep :=
  match pending with
  | .pass => return .answer value
  | .eachInteger block limit value receiver =>
    match checkedAdd? value 1 with
    | some next => Operation.integerStep block limit receiver next
    | none => return .answer receiver
  | .eachElement array block position receiver =>
    Operation.elementStep array block receiver position
  | .whileCondition condition body =>
    match value with
    | .bool true =>
      match body with
      | .block block => do
        return .call (← Caller.evaluation block .none) (.whileBody condition body)
      | _ => Operation.conditionStep condition body
    | .bool false => return .answer .nil
    | other => Engine.raise (.wrongKind "boolean" other)
  | .whileBody condition body => Operation.conditionStep condition body

end ObjectMachine
