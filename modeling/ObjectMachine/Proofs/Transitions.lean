/-
This file sorts the steps of the machine by what they do to live activations and to the
scene. A step carries on, with the deed of the turn it takes; it starts an activation, or
fails to; or it ends the innermost activation. What waits is never touched but at its end.
Turns and operations leave the registers alone too.
-/

import ObjectMachine.Proofs.Deeds

namespace ObjectMachine

/-! ### Operations -/

namespace Operation

open Engine

theorem looks_argument (arguments : List Value) (position : Nat) :
    Looks (argument arguments position) := by
  unfold argument
  split
  · exact .pure _
  · exact looks_raise rfl

theorem looks_asInteger (value : Value) : Looks (asInteger value) := by
  unfold asInteger
  split
  · exact .pure _
  · exact looks_raise rfl

theorem looks_asBlock (value : Value) : Looks (asBlock value) := by
  cases value with
  | block block => exact .pure _
  | _ => exact looks_raise rfl

theorem looks_asClass (value : Value) : Looks (asClass value) := by
  cases value with
  | classValue cls => exact .pure _
  | _ => exact looks_raise rfl

theorem looks_asArray (value : Value) : Looks (asArray value) := by
  cases value with
  | array array => exact .pure _
  | _ => exact looks_raise rfl

theorem looks_asTruth (value : Value) : Looks (asTruth value) := by
  cases value with
  | bool truth => exact .pure _
  | _ => exact looks_raise rfl

theorem looks_arraySlot (index : Int64) (length : Nat) : Looks (arraySlot index length) := by
  unfold arraySlot
  split
  · exact .pure _
  · exact looks_raise rfl

theorem looks_evaluationStep (block : BlockId) (arguments : Arguments) (pending : Pending) :
    Looks (do return OperationStep.call (← Caller.evaluation block arguments) pending) :=
  .bind (Caller.looks_evaluation block arguments) fun _ => .pure _

theorem looks_valueStep (value : Value) : Looks (valueStep value) := by
  cases value with
  | block block => exact looks_evaluationStep block .none .pass
  | _ => exact .pure _

theorem looks_integerStep (block : BlockId) (limit : Int64) (receiver : Value) (value : Int64) :
    Looks (integerStep block limit receiver value) := by
  unfold integerStep
  split
  · exact looks_evaluationStep block _ _
  · exact .pure _

theorem looks_elementStep (array : ArrayId) (block : BlockId) (receiver : Value)
    (position : Nat) : Looks (elementStep array block receiver position) := by
  refine .bind (looks_read _) fun element => ?_
  cases element with
  | none => exact .pure _
  | some element => exact looks_evaluationStep block _ _

theorem looks_conditionStep (condition : BlockId) (body : Value) :
    Looks (conditionStep condition body) :=
  looks_evaluationStep condition .none _

/-- An operation that adds an object or fills a slot of an array. -/
def touchesHeap : Operation → Bool
  | .newArray | .newInstance | .arrayAtPut => true
  | _ => false

/-- Any other operation only looks at the machine before it calls or answers. -/
theorem looks_begin {operation : Operation} (plain : operation.touchesHeap = false)
    (receiver : Value) (arguments : List Value) : Looks (operation.begin receiver arguments) := by
  have argument (position : Nat) := looks_argument arguments position
  have ofArgument (position : Nat) :
      Looks (do valueStep (← Operation.argument arguments position)) :=
    .bind (argument position) fun value => looks_valueStep value
  have answers {computation : Engine Value} (looks : Looks computation) :
      Looks (do return OperationStep.answer (← computation)) :=
    .bind looks fun _ => .pure _
  cases operation with
  | newArray | newInstance | arrayAtPut => cases plain
  | identical | equalNumbers | unequalNumbers => exact answers (.bind (argument 0) fun _ => .pure _)
  | itself | isNil | notNil => exact answers (.pure _)
  | classOf => exact answers (.bind (looks_read _) fun _ => .pure _)
  | doesNotUnderstand =>
    refine answers (.bind (argument 0) fun selector => ?_)
    refine .bind (looks_displayString selector) fun text => ?_
    exact .bind (looks_printString receiver) fun _ => looks_raise rfl
  | escapedBlock => exact answers (looks_raise rfl)
  | unknownGlobal =>
    refine answers (.bind (argument 0) fun name => ?_)
    exact .bind (looks_displayString name) fun _ => looks_raise rfl
  | arithmetic op =>
    exact answers (.bind (argument 0) fun _ => looks_orRaise fun _ => Value.shallow_arithmetic)
  | comparison test =>
    refine answers (.bind (argument 0) fun _ => ?_)
    exact .bind (looks_orRaise fun _ => Value.shallow_order) fun _ => .pure _
  | asDouble =>
    refine answers ?_
    unfold apply
    dsimp only
    split
    · exact .pure _
    · exact looks_raise rfl
  | toDo =>
    have loop (start limit : Int64) :
        Looks (do
          let block ← asBlock (← Operation.argument arguments 1)
          integerStep block limit receiver start) := by
      refine .bind (argument 1) fun value => ?_
      exact .bind (looks_asBlock value) fun block => looks_integerStep block limit receiver start
    refine .bind (looks_asInteger receiver) fun start => ?_
    refine .bind (argument 0) fun limit => ?_
    cases limit with
    | double limit => exact loop start limit.floorInt64
    | _ => exact .bind (looks_asInteger _) fun limit => loop start limit
  | ifTrue | ifFalse | and | or =>
    refine .bind (looks_asTruth receiver) fun truth => ?_
    cases truth with
    | true => first | exact ofArgument 0 | exact .pure _
    | false => first | exact ofArgument 0 | exact .pure _
  | ifTrueIfFalse | ifFalseIfTrue =>
    exact .bind (looks_asTruth receiver) fun truth => ofArgument _
  | not => exact answers (.bind (looks_asTruth receiver) fun truth => .pure _)
  | blockValue =>
    exact .bind (looks_asBlock receiver) fun block => looks_evaluationStep block .none .pass
  | blockValueWith =>
    refine .bind (looks_asBlock receiver) fun block => ?_
    exact .bind (argument 0) fun _ => looks_evaluationStep block _ .pass
  | blockValueWithWith =>
    refine .bind (looks_asBlock receiver) fun block => ?_
    refine .bind (argument 0) fun _ => ?_
    exact .bind (argument 1) fun _ => looks_evaluationStep block _ .pass
  | whileTrue =>
    refine .bind (looks_asBlock receiver) fun condition => ?_
    exact .bind (argument 0) fun body => looks_conditionStep condition body
  | arrayAt =>
    refine answers (.bind (looks_asArray receiver) fun array => ?_)
    refine .bind (argument 0) fun value => ?_
    refine .bind (looks_asInteger value) fun index => ?_
    refine .bind (looks_read _) fun length => ?_
    refine .bind (looks_arraySlot index length) fun position => ?_
    exact .bind (looks_read _) fun _ => looks_orFault _
  | arrayLength =>
    refine answers (.bind (looks_asArray receiver) fun array => ?_)
    exact .bind (looks_read _) fun _ => .pure _
  | arrayDo =>
    refine .bind (looks_asArray receiver) fun array => ?_
    refine .bind (argument 0) fun value => ?_
    exact .bind (looks_asBlock value) fun block => looks_elementStep array block receiver 0
  | className =>
    refine answers (.bind (looks_asClass receiver) fun cls => ?_)
    exact .bind (looks_read _) fun _ => .pure _
  | classSuperclass =>
    refine answers (.bind (looks_asClass receiver) fun cls => ?_)
    refine .bind (looks_read _) fun superclass => ?_
    cases superclass <;> exact .pure _

theorem mild_begin (operation : Operation) (receiver : Value) (arguments : List Value) :
    Mild (operation.begin receiver arguments) := by
  have argument (position : Nat) := (looks_argument arguments position).mild
  have answers {computation : Engine Value} (mild : Mild computation) :
      Mild (do return OperationStep.answer (← computation)) :=
    .bind mild fun _ _ => .pure trivial
  cases operation with
  | newArray =>
    refine answers (.bind (looks_asClass receiver).mild fun _ _ => ?_)
    refine .bind (argument 0) fun value _ => ?_
    refine .bind (looks_asInteger value).mild fun size _ => ?_
    split
    · exact gentle_raise rfl
    · split
      · exact gentle_throw (fun _ _ same => by cases same) rfl
      · exact mild_newArray _
  | newInstance =>
    refine answers (.bind (looks_asClass receiver).mild fun cls _ => ?_)
    exact .bind (mild_allocate fun _ => rfl) fun _ _ => .pure trivial
  | arrayAtPut =>
    refine answers (.bind (looks_asArray receiver).mild fun array _ => ?_)
    refine .bind (argument 0) fun value _ => ?_
    refine .bind (looks_asInteger value).mild fun index _ => ?_
    refine .bind (looks_read _).mild fun length _ => ?_
    refine .bind (looks_arraySlot index length).mild fun position _ => ?_
    refine .bind (argument 1) fun value _ => ?_
    exact .bind (mild_change fun _ => rfl) fun _ _ => .pure trivial
  | _ => exact (looks_begin rfl receiver arguments).mild

theorem mild_start (primitive : PrimitiveId) (receiver : Value) (arguments : Arguments) :
    Mild (start primitive receiver arguments) := by
  refine .bind (looks_read _).mild fun index _ => ?_
  split
  · exact mild_begin _ receiver arguments.toList
  · exact gentle_raise rfl

end Operation

open Engine Operation in
theorem Pending.looks_resume (pending : Pending) (value : Value) :
    Looks (pending.resume value) := by
  cases pending with
  | pass => exact .pure _
  | eachInteger block limit number receiver =>
    rw [resume]
    cases checkedAdd? number 1 with
    | some next => exact looks_integerStep block limit receiver next
    | none => exact .pure _
  | eachElement array block position receiver =>
    exact looks_elementStep array block receiver position
  | whileCondition condition body =>
    cases value with
    | bool truth =>
      cases truth with
      | true =>
        cases body with
        | block block => exact looks_evaluationStep block .none _
        | _ => exact looks_conditionStep condition _
      | false => exact .pure _
    | _ => exact looks_raise rfl
  | whileBody condition body => exact looks_conditionStep condition body

/-! ### Turns -/

def Turn.activation : Turn → Activation
  | .on activation _ | .exit _ activation => activation

def TurnStep.activation : TurnStep → Activation
  | .turned turn => turn.activation
  | .call _ activation _ _ => activation

namespace Leg

open Engine

section

variable {method : MethodId} {frame : Frame} {activation : Activation}
  (here : activation.In method frame)

include here

theorem gentle_follow (leg : Leg) (offset next : Nat) (flow : Flow) :
    Gentle (fun turn => turn.activation.In method frame)
      (leg.follow activation offset next flow) := by
  cases leg with
  | sequential hybrid =>
    cases flow with
    | _ => exact .pure here
  | threaded hasProgram hybrid =>
    cases flow with
    | backEdge target =>
      cases hybrid with
      | true =>
        refine .bind (mild_takeBackEdge _ offset) fun state _ => ?_
        cases state with
        | hot => exact .pure ⟨here.method, here.frame⟩
        | cold => exact .pure here
      | false => exact .pure here
    | retry =>
      cases hasProgram with
      | true => exact .bind (mild_refreshThreaded _ offset) fun _ _ => .pure here
      | false => exact .pure here
    | _ => exact .pure here

theorem gentle_resume (leg : Leg) (offset next : Nat) (reply : Reply) (value : Value) :
    Gentle (fun turn => turn.activation.In method frame)
      (leg.resume activation offset next reply value) := by
  have finishes : Gentle (fun done => done.2.In method frame) (reply.finish activation value) := by
    cases reply with
    | push => exact .bind (Activation.gentle_push here value) fun _ here => .pure here
    | answer => exact .pure here
  exact .bind finishes fun done here => gentle_follow here leg offset next done.1

end

theorem mild_enter (tier : Tier) (method : MethodId) : Mild (enter tier method) := by
  cases tier with
  | threaded =>
    refine .bind (mild_ensureThreaded method) fun hasProgram _ => ?_
    exact .bind looks_get.mild fun _ _ => .pure trivial
  | sequential => exact .bind looks_get.mild fun _ _ => .pure trivial

/-- The deed of the next turn. -/
def deed (leg : Leg) (activation : Activation) (offset : Nat) (machine : Machine) : Deed :=
  match leg.fetch activation offset machine with
  | .ok node _ => activation.deed machine node.instruction
  | .error _ _ => .nothing

/-- How the next turn may fail. -/
def Fails (leg : Leg) (activation : Activation) (offset : Nat) (machine : Machine)
    (abrupt : Abrupt) : Prop :=
  abrupt.Ordinary ∨ ∃ node, leg.fetch activation offset machine = .ok node machine ∧
    activation.Fails machine node.instruction abrupt

theorem looks_fetch (leg : Leg) (activation : Activation) (offset : Nat) :
    Looks (leg.fetch activation offset) := by
  have decodes : Looks (do
      let found ← instructionAt activation.method offset
      return ThreadedNode.mk found.1 (offset + found.2)) :=
    .bind (looks_instructionAt _ _) fun _ => .pure _
  cases leg with
  | threaded hasProgram hybrid =>
    cases hasProgram with
    | true =>
      refine .bind (looks_read _) fun found => ?_
      cases found with
      | some node => exact .pure _
      | none => exact decodes
    | false => exact decodes
  | sequential hybrid => exact decodes

theorem does_begin (leg : Leg) (activation : Activation) (machine : Machine) (offset : Nat)
    (instruction : Instruction) :
    activation.Does machine instruction (leg.begin activation offset instruction machine) := by
  cases leg with
  | threaded hasProgram hybrid =>
    exact activation.does_beginThreaded machine offset instruction
  | sequential hybrid => exact activation.does_begin machine offset instruction

/-- The rest of a turn after the instruction is gentle. -/
theorem gentle_close (leg : Leg) (offset next : Nat) {method : MethodId} {frame : Frame}
    {attempt : Attempt} (here : attempt.In method frame) :
    Gentle (fun step => step.activation.In method frame) (leg.close offset next attempt) := by
  cases attempt with
  | done flow activation =>
    exact .bind (gentle_follow here leg offset next flow) fun _ here => .pure here
  | call made activation reply => exact .pure here

theorem looks_stopsBefore (leg : Leg) (activation : Activation) (instruction : Instruction) :
    Looks (leg.stopsBefore activation instruction) := by
  cases leg with
  | threaded hasProgram hybrid => exact .pure _
  | sequential hybrid =>
    cases hybrid with
    | true =>
      cases instruction with
      | send literal arity => exact Activation.looks_meetsStaleReceiver literal arity
      | _ => exact .pure _
    | false => exact .pure _

/-- Only before a send a loop may be left. -/
theorem stopsBefore_of_not_send (leg : Leg) (activation : Activation) {instruction : Instruction}
    (other : ∀ literal arity, instruction ≠ .send literal arity) :
    leg.stopsBefore activation instruction = pure false := by
  cases leg with
  | threaded hasProgram hybrid => rfl
  | sequential hybrid =>
    cases hybrid with
    | true =>
      cases instruction with
      | send literal arity => exact (other literal arity rfl).elim
      | _ => rfl
    | false => rfl

theorem gentle_begin_send (leg : Leg) {method : MethodId} {frame : Frame}
    {activation : Activation} (here : activation.In method frame) (offset : Nat)
    (literal : UInt8) (arity : Arity) :
    Gentle (Attempt.In method frame) (leg.begin activation offset (.send literal arity)) := by
  cases leg with
  | threaded hasProgram hybrid =>
    exact Activation.gentle_sendInlinedAttempt here offset literal arity
  | sequential hybrid => exact Activation.gentle_sendAttempt here offset literal arity

/-- The rest of a turn after its instruction has been read. -/
def perform (leg : Leg) (activation : Activation) (offset : Nat) (node : ThreadedNode) :
    Engine TurnStep := do
  if ← leg.stopsBefore activation node.instruction then
    Engine.resetBackEdges activation.method
    return .turned (activation.leave .threaded offset)
  else leg.close offset node.next (← leg.begin activation offset node.instruction)

/-- A turn leaves the registers alone, whatever its deed. -/
theorem spares_advance (leg : Leg) (activation : Activation) (offset : Nat) :
    Spares (leg.advance activation offset) := by
  have begins (instruction : Instruction) :
      Spares (leg.begin activation offset instruction) := by
    cases leg with
    | threaded hasProgram hybrid => exact activation.spares_beginThreaded offset instruction
    | sequential hybrid => exact activation.spares_begin offset instruction
  refine .bind (looks_fetch leg activation offset).mild.spares fun node => ?_
  refine .bind (looks_stopsBefore leg activation node.instruction).mild.spares fun stops => ?_
  split
  · exact .bind (mild_resetBackEdges _).spares fun _ => .pure
  · refine .bind (begins node.instruction) fun attempt => ?_
    exact (gentle_close leg offset node.next (Activation.In.refl attempt.activation)).spares

theorem does_perform (leg : Leg) (activation : Activation) (offset : Nat) (node : ThreadedNode)
    (machine : Machine) :
    Ends (fun step => step.activation.In activation.method
        ((activation.deed machine node.instruction).frame activation.frame))
      (activation.Fails machine node.instruction)
      ((activation.deed machine node.instruction).scene machine.heap.scene)
      (leg.perform activation offset node machine) := by
  obtain ⟨instruction, next⟩ := node
  by_cases sends : ∃ literal arity, instruction = .send literal arity
  · obtain ⟨literal, arity, rfl⟩ := sends
    have here := Activation.In.refl activation
    have gentle : Gentle (fun step => step.activation.In activation.method activation.frame)
        (leg.perform activation offset ⟨.send literal arity, next⟩) := by
      refine .bind (looks_stopsBefore leg activation _).mild fun stops _ => ?_
      split
      · exact .bind (mild_resetBackEdges _) fun _ _ => .pure ⟨rfl, rfl⟩
      · exact .bind (gentle_begin_send leg here offset literal arity) fun attempt here =>
          gentle_close leg offset next here
    exact (gentle.quiet machine).weaken fun _ => .inl
  · have other (literal : UInt8) (arity : Arity) : instruction ≠ .send literal arity :=
      fun same => sends ⟨literal, arity, same⟩
    rw [perform, stopsBefore_of_not_send leg activation other, pure_bind]
    have does := leg.does_begin activation machine offset instruction
    refine Ends.bind does fun attempt after same here => ?_
    rw [← same]
    exact ((gentle_close leg offset next here).quiet after).weaken fun _ => .inl

/-- A turn does its deed. -/
theorem does_advance (leg : Leg) (activation : Activation) (offset : Nat) (machine : Machine) :
    Ends (fun step => step.activation.In activation.method
        ((leg.deed activation offset machine).frame activation.frame))
      (leg.Fails activation offset machine)
      ((leg.deed activation offset machine).scene machine.heap.scene)
      (leg.advance activation offset machine) := by
  have looks := looks_fetch leg activation offset
  unfold deed
  rw [advance]
  cases found : leg.fetch activation offset machine with
  | error abrupt after =>
    obtain ⟨rfl, ordinary⟩ := looks.of_error found
    rw [bind_of_error found]
    exact .error rfl (.inl ordinary)
  | ok node after =>
    obtain rfl := looks.of_ok found
    rw [bind_of_ok found]
    exact (does_perform leg activation offset node after).weaken fun _ failed =>
      .inr ⟨node, found, failed⟩

end Leg

/-! ### Live activations -/

/-- What lasts of an activation from one step to the next. -/
structure Home where
  context : Option ContextId
  catches : Bool
  method : MethodId
  frame : Frame

def Live.home (live : Live) : Home :=
  ⟨live.context, live.catches, live.activation.method, live.activation.frame⟩

def Waiting.home? : Waiting → Option Home
  | .activation _ live _ _ => some live.home
  | .operation _ => none

def Focus.home? : Focus → Option Home
  | .enter _ live | .turn _ live => some live.home
  | .call _ | .answer _ | .fail _ => none

/-- The focus that an activation leaves behind. -/
def Home.focus (home : Home) : Except Abrupt Value → Focus
  | .ok value => .answer value
  | .error (.nonLocalReturn value target) =>
    if home.catches && home.context == some target then .answer value
    else .fail (.nonLocalReturn value target)
  | .error abrupt => .fail abrupt

/-- The context that the end of an activation takes off the stack. -/
def Home.cleared (home : Home) : Except Abrupt Value → Option ContextId
  | .ok _ => home.context
  | .error abrupt => if abrupt.breaksOff then none else home.context

theorem Home.home?_focus (home : Home) (ending : Except Abrupt Value) :
    (home.focus ending).home? = none := by
  unfold focus
  split
  · rfl
  · split <;> rfl
  · rfl

theorem Home.focus_congr {first second : Home} {ending : Except Abrupt Value}
    (context : first.context = second.context) (catches : first.catches = second.catches) :
    first.focus ending = second.focus ending := by
  unfold focus
  rw [context, catches]

theorem Home.context_of_cleared (home : Home) {ending : Except Abrupt Value} {context : ContextId}
    (cleared : home.cleared ending = some context) : home.context = some context := by
  unfold Home.cleared at cleared
  split at cleared
  · exact cleared
  · split at cleared
    · cases cleared
    · exact cleared

theorem Home.cleared_congr {first second : Home} {ending : Except Abrupt Value}
    (context : first.context = second.context) : first.cleared ending = second.cleared ending := by
  unfold cleared
  rw [context]

/-- Where the machine breaks off, it does so for good. -/
theorem Home.focus_of_breaksOff (home : Home) {abrupt : Abrupt} (broken : abrupt.breaksOff = true) :
    home.focus (.error abrupt) = .fail abrupt := by
  cases abrupt with
  | nonLocalReturn => cases broken
  | _ => rfl

/-- Where it does not, an activation takes its context along. -/
theorem Home.cleared_of_whole (home : Home) {ending : Except Abrupt Value}
    (whole : ∀ abrupt, home.focus ending = .fail abrupt → abrupt.breaksOff = false) :
    home.cleared ending = home.context := by
  cases ending with
  | ok value => rfl
  | error abrupt =>
    cases broken : abrupt.breaksOff with
    | true => cases broken.symm.trans (whole _ (home.focus_of_breaksOff broken))
    | false => simp [cleared, broken]

/-- A failure is handed on, or it is a return that ends here. -/
theorem Home.focus_error (home : Home) (abrupt : Abrupt) :
    home.focus (.error abrupt) = .fail abrupt ∨
      ∃ value target, abrupt = .nonLocalReturn value target ∧
        home.focus (.error abrupt) = .answer value := by
  cases abrupt with
  | nonLocalReturn value target =>
    by_cases caught : (home.catches && home.context == some target) = true
    · exact .inr ⟨value, target, rfl, if_pos caught⟩
    · exact .inl (if_neg caught)
  | _ => exact .inl rfl

/-- A home that an activation fails through does not catch the failure. -/
theorem Home.uncaught {home : Home} {ending : Except Abrupt Value} {abrupt : Abrupt}
    (failed : home.focus ending = .fail abrupt) :
    ending = .error abrupt ∧ ∀ value target, abrupt = .nonLocalReturn value target →
      home.context = some target → home.catches = false := by
  unfold focus at failed
  split at failed
  · cases failed
  · split at failed
    · cases failed
    · rename_i caught
      cases failed
      refine ⟨rfl, fun value target same anchored => ?_⟩
      cases same
      simpa [anchored] using caught
  · rename_i ordinary
    cases failed
    exact ⟨rfl, fun value target same _ => (ordinary value target same).elim⟩

def Deed.homes (deed : Deed) : List Home → List Home
  | [] => []
  | home :: outer => { home with frame := deed.frame home.frame } :: outer

@[simp] theorem Deed.homes_nothing (homes : List Home) : Deed.nothing.homes homes = homes := by
  cases homes <;> rfl

/-- The end of the activation of a context. -/
def Scene.finish (scene : Scene) (context : Option ContextId) : Scene :=
  match context with
  | some context =>
    { scene with
      contexts := scene.contexts.modify context fun row => { row with onStack := false } }
  | none => scene

theorem Heap.scene_finishContext (heap : Heap) (context : Option ContextId) :
    (heap.finishContext context).scene = heap.scene.finish context := by
  cases context <;> rfl

namespace State

def scene (state : State) : Scene := state.machine.heap.scene

/-- The live activations, the innermost first. -/
def homes (state : State) : List Home :=
  state.focus.home?.toList ++ state.waiting.filterMap Waiting.home?

/-- The deed of the next step. -/
def deed (state : State) : Deed :=
  match state.focus with
  | .turn leg live => leg.deed live.activation live.offset state.machine
  | _ => .nothing

/-- A block is about to return from its home. -/
def Returns (state : State) (block : BlockId) (value : Value) (target : ContextId) : Prop :=
  ∃ leg live node, state.focus = .turn leg live ∧
    leg.fetch live.activation live.offset state.machine = .ok node state.machine ∧
    live.activation.Targets state.machine node.instruction block value target

/-- How the innermost activation may end before it has an answer. -/
def Breaks (state : State) (abrupt : Abrupt) : Prop :=
  abrupt.Ordinary ∨ state.focus = .fail abrupt ∨
    ∃ block value target, abrupt = .nonLocalReturn value target ∧
      state.Returns block value target ∧ state.machine.heap.isHomeRunning block = true

/-- What a step does to live activations and to the scene. -/
inductive Goes (before after : State) : Prop
  | on (scene : after.scene = before.deed.scene before.scene)
    (homes : after.homes = before.deed.homes before.homes)
    (fails : ∀ abrupt, after.focus = .fail abrupt →
      abrupt.Ordinary ∨ before.focus = .fail abrupt)
  | start {made : Call} {method : MethodId} {tier : Tier} {live : Live}
    (calls : before.focus = .call made) (target : made.target = .method method)
    (started : Live.start method made.receiver made.arguments before.machine =
      .ok (tier, live) after.machine)
    (entered : after.focus = .enter tier live) (waiting : after.waiting = before.waiting)
  | reject {made : Call} {method : MethodId} {abrupt : Abrupt}
    (calls : before.focus = .call made) (target : made.target = .method method)
    (refused : Live.start method made.receiver made.arguments before.machine =
      .error abrupt after.machine)
    (failed : after.focus = .fail abrupt) (waiting : after.waiting = before.waiting)
  | finish {home : Home} {outer : List Home} (ending : Except Abrupt Value)
    (homes : before.homes = home :: outer) (left : after.homes = outer)
    (scene : after.scene = (before.deed.scene before.scene).finish (home.cleared ending))
    (focus : after.focus = home.focus ending)
    (breaks : ∀ abrupt, ending = .error abrupt → before.Breaks abrupt)

/-! ### Steps -/

/-- The machine after the end of an activation. -/
def closed (live : Live) (ending : Except Abrupt Value) (machine : Machine) : Machine :=
  Engine.leave (live.home.cleared ending) machine

theorem concluded_pure (live : Live) (waiting : List Waiting) (value : Value)
    (machine : Machine) :
    concluded live waiting (pure value) machine =
      ⟨closed live (.ok value) machine, live.home.focus (.ok value), waiting⟩ :=
  rfl

theorem abandoned_eq (live : Live) (waiting : List Waiting) (abrupt : Abrupt)
    (machine : Machine) :
    abandoned live waiting abrupt machine =
      ⟨closed live (.error abrupt) machine, live.home.focus (.error abrupt), waiting⟩ := by
  cases abrupt with
  | nonLocalReturn value target =>
    have thrown : (throw (.nonLocalReturn value target) : Engine Value) machine =
        .error (.nonLocalReturn value target) machine := rfl
    simp only [abandoned, concluded, after, Live.close, Engine.settle, thrown]
    by_cases caught : (live.catches && live.context == some target) = true
    · rw [show live.home.focus (.error (.nonLocalReturn value target)) = .answer value from
        if_pos caught, if_pos caught]
      rfl
    · rw [show live.home.focus (.error (.nonLocalReturn value target)) =
        .fail (.nonLocalReturn value target) from if_neg caught, if_neg caught]
      rfl
  | _ => rfl

theorem homes_of_turn {before : State} {leg : Leg} {live : Live}
    (turns : before.focus = .turn leg live) :
    before.homes = live.home :: before.waiting.filterMap Waiting.home? := by
  rw [homes, turns]
  rfl

/-- A call that starts an activation puts its home above the others. -/
theorem homes_of_start {before after : State} {made : Call} {tier : Tier} {live : Live}
    (calls : before.focus = .call made) (entered : after.focus = .enter tier live)
    (waiting : after.waiting = before.waiting) : after.homes = live.home :: before.homes := by
  rw [homes, homes, entered, waiting, calls]
  rfl

/-- A call that fails to start an activation leaves the homes as they are. -/
theorem homes_of_reject {before after : State} {made : Call} {abrupt : Abrupt}
    (calls : before.focus = .call made) (failed : after.focus = .fail abrupt)
    (waiting : after.waiting = before.waiting) : after.homes = before.homes := by
  rw [homes, homes, failed, waiting, calls]
  rfl

section

variable {before : State} {leg : Leg} {live : Live} {home : Home} {waiting : List Waiting}
  (homes : before.homes = home :: waiting.filterMap Waiting.home?)
  (context : live.context = home.context) (catches : live.catches = home.catches)

include homes context catches

theorem goes_conclusion {machine : Machine}
    (scene : machine.heap.scene = before.deed.scene before.scene)
    {ending : Except Abrupt Value} {after : State}
    (breaks : ∀ abrupt, ending = .error abrupt → before.Breaks abrupt)
    (ends : after = ⟨closed live ending machine, live.home.focus ending, waiting⟩) :
    before.Goes after := by
  subst ends
  refine .finish ending homes ?_ ?_ (Home.focus_congr context catches) breaks
  · simp only [State.homes, Home.home?_focus, Option.toList_none, List.nil_append]
  · show (machine.heap.finishContext (live.home.cleared ending)).scene = _
    rw [Heap.scene_finishContext, scene, Home.cleared_congr context]

/-- An activation is abandoned where a computation of it fails. -/
theorem goes_after {α : Type} {post : α → Prop} {fails : Abrupt → Prop}
    {computation : Engine α} {machine : Machine} {done : α → Machine → State}
    (ends : Engine.Ends post fails (before.deed.scene before.scene) (computation machine))
    (breaks : ∀ abrupt, fails abrupt → before.Breaks abrupt)
    (follows : ∀ value machine, machine.heap.scene = before.deed.scene before.scene →
      post value → before.Goes (done value machine)) :
    before.Goes (after computation machine done (abandoned live waiting)) := by
  unfold after
  generalize computation machine = result at ends
  cases ends with
  | ok scene known => exact follows _ _ scene known
  | error scene failed =>
    refine goes_conclusion homes context catches scene (fun abrupt same => ?_)
      (abandoned_eq live waiting _ _)
    cases same
    exact breaks _ failed

theorem goes_proceeded {turn : Turn} {machine : Machine}
    (scene : machine.heap.scene = before.deed.scene before.scene)
    (here : turn.activation.In home.method (before.deed.frame home.frame)) :
    before.Goes (proceeded leg live waiting turn machine) := by
  cases turn with
  | on activation offset =>
    refine .on scene ?_ fun _ failed => by cases failed
    rw [homes, Deed.homes, ← here.method, ← here.frame, ← context, ← catches]
    rfl
  | exit way activation =>
    cases way with
    | answer value =>
      exact goes_conclusion homes context catches scene (fun _ same => by cases same)
        (concluded_pure live waiting value machine)
    | transfer toward offset stack =>
      have counts := Engine.still_countTransfer toward machine
      rw [scene] at counts
      rw [proceeded]
      refine goes_after homes context catches counts (fun _ => .inl) fun _ machine scene _ => ?_
      refine .on scene ?_ fun _ failed => by cases failed
      rw [homes, Deed.homes, ← here.method, ← here.frame, ← context, ← catches]
      rfl

end

/-- An operation begins or goes on. -/
theorem goes_operated {before : State} {waiting : List Waiting}
    (nothing : before.deed = .nothing)
    (homes : before.homes = waiting.filterMap Waiting.home?)
    {computation : Engine OperationStep} (mild : Engine.Mild computation) :
    before.Goes (after computation before.machine (operated waiting) (failed waiting)) := by
  have ends := mild.quiet before.machine
  unfold after
  generalize computation before.machine = result at ends
  cases ends with
  | @ok step machine scene _ =>
    refine .on ?_ ?_ fun abrupt failed => ?_
    · rw [nothing]
      cases step <;> exact scene
    · rw [nothing, Deed.homes_nothing, homes]
      cases step <;> rfl
    · cases step <;> cases failed
  | error scene ordinary =>
    refine .on ?_ ?_ fun abrupt same => ?_
    · rw [nothing]
      exact scene
    · rw [nothing, Deed.homes_nothing, homes]
      rfl
    · cases same
      exact .inl ordinary

/-- Every step goes on, starts an activation or ends one. -/
theorem goes_step {before after : State} (stepped : before.step = some after) :
    before.Goes after := by
  cases step_eq_some_iff.mp stepped with
  | operate machine primitive receiver arguments waiting =>
    exact goes_operated rfl rfl (Operation.mild_start primitive receiver arguments)
  | start machine method receiver arguments waiting =>
    unfold State.after
    cases started : Live.start method receiver arguments machine with
    | ok live after => exact .start rfl rfl started rfl rfl
    | error abrupt after => exact .reject rfl rfl started rfl rfl
  | enter machine tier live waiting =>
    have ends := (Leg.mild_enter tier live.activation.method).quiet machine
    refine goes_after rfl rfl rfl ends (fun _ => .inl) fun leg machine scene _ => ?_
    exact .on scene rfl fun _ failed => by cases failed
  | turn machine leg live waiting =>
    have ends := leg.does_advance live.activation live.offset machine
    refine goes_after rfl rfl rfl ends (fun abrupt failed => ?_) fun step machine scene here => ?_
    · rcases failed with ordinary | ⟨node, fetched, ordinary | ⟨block, value, target, same, targets,
        running⟩⟩
      · exact .inl ordinary
      · exact .inl ordinary
      · exact .inr (.inr ⟨block, value, target, same, ⟨leg, live, node, rfl, fetched, targets⟩,
          running⟩)
    · cases step with
      | turned turn => exact goes_proceeded rfl rfl rfl scene here
      | call made activation next reply =>
        refine .on scene ?_ fun _ failed => by cases failed
        have method : activation.method = live.activation.method := here.method
        have frame : activation.frame =
            (leg.deed live.activation live.offset _).frame live.activation.frame := here.frame
        show (⟨live.context, live.catches, activation.method, activation.frame⟩ : Home) :: _ = _
        rw [method, frame]
        rfl
  | answer machine value leg live next reply waiting =>
    have ends := (Leg.gentle_resume (Activation.In.refl live.activation) leg live.offset next
      reply value).quiet machine
    refine goes_after rfl rfl rfl ends (fun _ => .inl) fun turn machine scene here => ?_
    exact goes_proceeded rfl rfl rfl scene here
  | resume machine value pending waiting =>
    exact goes_operated rfl rfl (pending.looks_resume value).mild
  | abandon machine abrupt leg live next reply waiting =>
    refine goes_conclusion rfl rfl rfl rfl (fun failed same => ?_)
      (abandoned_eq live waiting abrupt machine)
    cases same
    exact .inr (.inl rfl)
  | unwind machine abrupt pending waiting =>
    refine .on rfl (Deed.homes_nothing _).symm fun failed same => ?_
    cases same
    exact .inr rfl

end State

end ObjectMachine
