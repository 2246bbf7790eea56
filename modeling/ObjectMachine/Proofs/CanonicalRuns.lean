/-
This file keeps the values of a machine as a canon demands through whole runs. Operations make
booleans, numbers and arrays and answer classes that the canon holds of; an object or a block
may be made on the way, and from then on the canon counts that holds of it too. So a step takes
a state that obeys a canon to one that obeys it or one that has taken over from it.
-/

import ObjectMachine.Proofs.CanonicalActivations
import ObjectMachine.Proofs.Adequacy

namespace ObjectMachine

open Engine

variable {canon : Canon}

/-! ### Operations -/

namespace Operation

theorem keeps_argument {arguments : List Value} (given : canon.All arguments)
    (position : Nat) : canon.Keeps canon.holds (argument arguments position) := by
  unfold argument
  split
  · rename_i value found
    exact .pure (given value (List.mem_of_getElem? found))
  · exact keeps_raise _

theorem keeps_asBlock {value : Value} (given : canon.holds value) :
    canon.Keeps (fun block => canon.holds (.block block)) (asBlock value) := by
  cases value with
  | block block => exact .pure given
  | _ => exact keeps_raise _

theorem keeps_asClass {value : Value} (given : canon.holds value) :
    canon.Keeps (fun cls => canon.holds (.classValue cls)) (asClass value) := by
  cases value with
  | classValue cls => exact .pure given
  | _ => exact keeps_raise _

theorem keeps_arrayElement? (array : ArrayId) (position : Nat) :
    canon.Keeps (fun found => ∀ value, found = some value → canon.holds value)
      (arrayElement? array position) :=
  keeps_read fun _ obeys value found =>
    obeys.stores.elements array value (Array.mem_of_getElem? found)

theorem keeps_evaluationStep {block : BlockId} (mine : canon.holds (.block block))
    {arguments : Arguments} {pending : Pending} (given : canon.All arguments.toList)
    (waits : canon.All pending.held) :
    canon.Keeps (fun step => canon.All step.values)
      (do return OperationStep.call (← Caller.evaluation block arguments) pending) :=
  .bind (Caller.keeps_evaluation mine given) fun _ known => .pure (known.append waits)

theorem keeps_valueStep {value : Value} (given : canon.holds value) :
    canon.Keeps (fun step => canon.All step.values) (valueStep value) := by
  cases value with
  | block block => exact keeps_evaluationStep given .nil .nil
  | _ => exact .pure (.one given)

section

variable {block : BlockId} (mine : canon.holds (.block block)) {receiver : Value}
  (given : canon.holds receiver)

include mine given

theorem keeps_integerStep (limit value : Int64) :
    canon.Keeps (fun step => canon.All step.values)
      (integerStep block limit receiver value) := by
  unfold integerStep
  split
  · exact keeps_evaluationStep mine (.one (canon.integer _)) (.cons mine (.one given))
  · exact .pure (.one given)

theorem keeps_elementStep (array : ArrayId) (position : Nat) :
    canon.Keeps (fun step => canon.All step.values)
      (elementStep array block receiver position) := by
  refine .bind (keeps_arrayElement? array position) fun element known => ?_
  cases element with
  | none => exact .pure (.one given)
  | some element =>
    exact keeps_evaluationStep mine (.one (known element rfl)) (.cons mine (.one given))

theorem keeps_conditionStep :
    canon.Keeps (fun step => canon.All step.values) (conditionStep block receiver) :=
  keeps_evaluationStep mine .nil (.cons mine (.one given))

end

/-- Whatever does not make an object. -/
theorem keeps_begin (operation : Operation) (other : operation ≠ .newInstance) {receiver : Value}
    {arguments : List Value} (given : canon.All (receiver :: arguments)) :
    canon.Keeps (fun step => canon.All step.values) (operation.begin receiver arguments) := by
  have argument (position : Nat) := keeps_argument given.tail position
  have ofArgument (position : Nat) :
      canon.Keeps (fun step => canon.All step.values)
        (do valueStep (← Operation.argument arguments position)) :=
    .bind (argument position) fun value known => keeps_valueStep known
  have answers {computation : Engine Value} (keeps : canon.Keeps canon.holds computation) :
      canon.Keeps (fun step => canon.All step.values)
        (do return OperationStep.answer (← computation)) :=
    .bind keeps fun _ known => .pure (.one known)
  cases operation with
  | identical | equalNumbers | unequalNumbers =>
    exact answers (.bind (argument 0) fun _ _ => .pure (canon.bool _))
  | itself => exact answers (.pure given.head)
  | isNil | notNil => exact answers (.pure (canon.bool _))
  | classOf =>
    exact answers (.bind (keeps_read fun _ obeys => canon.classOf obeys.rows given.head)
      fun _ known => .pure known)
  | doesNotUnderstand =>
    refine answers (.bind (argument 0) fun selector _ => ?_)
    refine .before (looks_displayString selector).keeps fun text => ?_
    exact .before (looks_printString receiver).keeps fun _ => keeps_raise _
  | escapedBlock => exact answers (keeps_raise _)
  | unknownGlobal =>
    refine answers (.bind (argument 0) fun name _ => ?_)
    exact .before (looks_displayString name).keeps fun _ => keeps_raise _
  | arithmetic op =>
    exact answers (.bind (argument 0) fun _ _ =>
      (keeps_orRaise _).imp fun _ => canon.of_arithmetic)
  | comparison test =>
    refine answers (.bind (argument 0) fun _ _ => ?_)
    exact .bind (keeps_orRaise _) fun _ _ => .pure (canon.bool _)
  | asDouble =>
    refine answers ?_
    unfold apply
    dsimp only
    split
    · exact .pure (canon.plain rfl)
    · exact keeps_raise _
  | toDo =>
    have loop (start limit : Int64) :
        canon.Keeps (fun step => canon.All step.values) (do
          let block ← asBlock (← Operation.argument arguments 1)
          integerStep block limit receiver start) := by
      refine .bind (argument 1) fun value known => ?_
      exact .bind (keeps_asBlock known) fun block mine => keeps_integerStep mine given.head _ _
    refine .bind (looks_asInteger receiver).keeps fun start _ => ?_
    refine .bind (argument 0) fun limit _ => ?_
    cases limit with
    | double limit => exact loop start limit.floorInt64
    | _ => exact .bind (looks_asInteger _).keeps fun limit _ => loop start limit
  | ifTrue | ifFalse | and | or =>
    refine .bind (looks_asTruth receiver).keeps fun truth _ => ?_
    cases truth with
    | true => first | exact ofArgument 0 | exact .pure (.one (canon.plain rfl))
    | false => first | exact ofArgument 0 | exact .pure (.one (canon.plain rfl))
  | ifTrueIfFalse | ifFalseIfTrue =>
    exact .bind (looks_asTruth receiver).keeps fun truth _ => ofArgument _
  | not =>
    exact answers (.bind (looks_asTruth receiver).keeps fun truth _ =>
      .pure (canon.bool _))
  | blockValue =>
    exact .bind (keeps_asBlock given.head) fun block mine => keeps_evaluationStep mine .nil .nil
  | blockValueWith =>
    refine .bind (keeps_asBlock given.head) fun block mine => ?_
    exact .bind (argument 0) fun _ known => keeps_evaluationStep mine (.one known) .nil
  | blockValueWithWith =>
    refine .bind (keeps_asBlock given.head) fun block mine => ?_
    refine .bind (argument 0) fun _ known => ?_
    exact .bind (argument 1) fun _ also =>
      keeps_evaluationStep mine (.cons known (.one also)) .nil
  | whileTrue =>
    refine .bind (keeps_asBlock given.head) fun condition mine => ?_
    exact .bind (argument 0) fun body known => keeps_conditionStep mine known
  | newArray =>
    refine answers (.bind (keeps_asClass given.head) fun _ _ => ?_)
    refine .bind (argument 0) fun value _ => ?_
    refine .bind (looks_asInteger value).keeps fun size _ => ?_
    split
    · exact keeps_raise _
    · split
      · exact keeps_indexFault
      · exact keeps_newArray (canon.replicate _)
  | arrayAt =>
    refine answers (.bind (looks_asArray receiver).keeps fun array _ => ?_)
    refine .bind (argument 0) fun value _ => ?_
    refine .bind (looks_asInteger value).keeps fun index _ => ?_
    refine .bind (keeps_ask _) fun length _ => ?_
    refine .bind (looks_arraySlot index length).keeps fun position _ => ?_
    exact .bind (keeps_arrayElement? array position) fun found known =>
      (keeps_orFault found).imp known
  | arrayAtPut =>
    refine answers (.bind (looks_asArray receiver).keeps fun array _ => ?_)
    refine .bind (argument 0) fun value _ => ?_
    refine .bind (looks_asInteger value).keeps fun index _ => ?_
    refine .bind (keeps_ask _) fun length _ => ?_
    refine .bind (looks_arraySlot index length).keeps fun position _ => ?_
    refine .bind (argument 1) fun value known => ?_
    exact .bind (keeps_change fun _ obeys =>
      Heap.obeys_setElement obeys array position known) fun _ _ => .pure known
  | arrayLength =>
    refine answers (.bind (looks_asArray receiver).keeps fun array _ => ?_)
    exact .bind (keeps_ask _) fun _ _ => .pure (canon.integer _)
  | arrayDo =>
    refine .bind (looks_asArray receiver).keeps fun array _ => ?_
    refine .bind (argument 0) fun value known => ?_
    exact .bind (keeps_asBlock known) fun block mine => keeps_elementStep mine given.head array 0
  | newInstance => exact (other rfl).elim
  | className =>
    refine answers (.bind (keeps_asClass given.head) fun cls _ => ?_)
    exact .bind (keeps_ask _) fun _ _ => .pure (canon.plain rfl)
  | classSuperclass =>
    refine answers (.bind (keeps_asClass given.head) fun cls _ => ?_)
    have reads : canon.Keeps
        (fun found => ∀ superclass, found = some superclass → canon.holds (.classValue superclass))
        (heapValue fun heap => (heap.classes.get cls).superclass) :=
      keeps_read fun heap obeys superclass => canon.superclass obeys.rows
    refine .bind reads fun superclass known => ?_
    cases superclass with
    | some superclass => exact .pure (known superclass rfl)
    | none => exact .pure canon.nil

/-- Where an object is made, a canon that holds of it takes over. -/
theorem makes_begin {canons : Succession} (among : canons.among canon) (operation : Operation)
    {receiver : Value} {arguments : List Value} (given : canon.All (receiver :: arguments)) :
    canons.Makes canon (fun later step => later.All step.values)
      (operation.begin receiver arguments) := by
  by_cases makes : operation = .newInstance
  · subst makes
    have allocates : canons.Makes canon (fun later => later.holds)
        (newInstance.apply Activation.noCall 0 receiver arguments) := by
      refine (keeps_asClass given.head).first among fun cls known machine obeys => ?_
      obtain ⟨later, also, grows, rows, holds⟩ := canons.newObject among obeys.heap.rows known
      refine ⟨later, also, grows, .ok ⟨⟨?_, rows⟩, fun name value found => ?_⟩ holds⟩
      · exact Heap.stores_addInstance (obeys.heap.stores.imp grows) cls
      · exact grows value (obeys.globals name value found)
    exact allocates.bind fun _ _ _ _ known => .pure (.one known)
  · exact (keeps_begin operation makes given).makes among

theorem makes_start {canons : Succession} (among : canons.among canon) (primitive : PrimitiveId)
    {receiver : Value} {arguments : Arguments} (given : canon.All (receiver :: arguments.toList)) :
    canons.Makes canon (fun later step => later.All step.values)
      (start primitive receiver arguments) := by
  refine (keeps_ask _).first among fun index _ => ?_
  split
  · exact makes_begin among _ given
  · exact (keeps_raise _).makes among

end Operation

open Operation in
theorem Pending.keeps_resume {pending : Pending} {value : Value}
    (waits : canon.All pending.held) (given : canon.holds value) :
    canon.Keeps (fun step => canon.All step.values) (pending.resume value) := by
  cases pending with
  | pass => exact .pure (.one given)
  | eachInteger block limit number receiver =>
    rw [resume]
    cases checkedAdd? number 1 with
    | some next => exact keeps_integerStep waits.head waits.tail.head limit next
    | none => exact .pure (.one waits.tail.head)
  | eachElement array block position receiver =>
    exact keeps_elementStep waits.head waits.tail.head array position
  | whileCondition condition body =>
    cases value with
    | bool truth =>
      cases truth with
      | true =>
        cases body with
        | block block => exact keeps_evaluationStep waits.tail.head .nil waits
        | _ => exact keeps_conditionStep waits.head waits.tail.head
      | false => exact .pure (.one canon.nil)
    | _ => exact keeps_raise _
  | whileBody condition body => exact keeps_conditionStep waits.head waits.tail.head

/-! ### Turns -/

namespace Leg

variable {activation : Activation}

variable (obeys : canon.All activation.values)

include obeys

theorem keeps_follow (leg : Leg) (offset next : Nat) {flow : Flow}
    (given : canon.All flow.values) :
    canon.Keeps (fun turn => canon.All turn.values) (leg.follow activation offset next flow) := by
  cases leg with
  | sequential hybrid =>
    cases flow with
    | answer value => exact .pure (.cons given.head obeys)
    | _ => exact .pure obeys
  | threaded hasProgram hybrid =>
    cases flow with
    | answer value => exact .pure (.cons given.head obeys)
    | backEdge target =>
      cases hybrid with
      | true =>
        refine .bind (keeps_takeBackEdge _ offset) fun state _ => ?_
        cases state with
        | hot => exact .pure (obeys.right.append (obeys.left.append .nil))
        | cold => exact .pure obeys
      | false => exact .pure obeys
    | retry =>
      cases hasProgram with
      | true =>
        refine .before ?_ fun _ => .pure obeys
        exact .before (looks_instructionAt _ offset).keeps fun _ => keeps_aside fun _ => rfl
      | false => exact .pure obeys
    | _ => exact .pure obeys

theorem keeps_resume (leg : Leg) (offset next : Nat) (reply : Reply) {value : Value}
    (given : canon.holds value) :
    canon.Keeps (fun turn => canon.All turn.values)
      (leg.resume activation offset next reply value) := by
  have finishes : canon.Keeps (fun done => canon.All (done.1.values ++ done.2.values))
      (reply.finish activation value) := by
    cases reply with
    | push => exact .bind (Activation.keeps_push obeys given) fun _ pushed => .pure pushed
    | answer => exact .pure (.cons given obeys)
  exact .bind finishes fun done known => keeps_follow known.right leg offset next known.left

variable {canons : Succession} (among : canons.among canon)

include among

theorem makes_begin (leg : Leg) (offset : Nat) (instruction : Instruction) :
    canons.Makes canon (fun later attempt => later.All attempt.values)
      (leg.begin activation offset instruction) := by
  cases leg with
  | threaded hasProgram hybrid => exact Activation.makes_beginThreaded obeys among offset _
  | sequential hybrid => exact Activation.makes_begin obeys among offset _

theorem makes_advance (leg : Leg) (offset : Nat) :
    canons.Makes canon (fun later step => later.All step.values)
      (leg.advance activation offset) := by
  refine (leg.looks_fetch activation offset).keeps.first among fun node _ => ?_
  refine (leg.looks_stopsBefore activation _).keeps.first among fun stops _ => ?_
  split
  · exact Canon.Keeps.makes (.bind (keeps_aside fun _ => rfl) fun _ _ =>
      .pure (obeys.right.append (obeys.left.append .nil))) among
  · refine (makes_begin obeys among leg offset _).bind fun later _ _ attempt known => ?_
    cases attempt with
    | done flow activation =>
      exact .bind (keeps_follow known.right leg offset _ known.left) fun _ turned => .pure turned
    | call made activation reply => exact .pure known

end Leg

theorem Leg.keeps_enter (tier : Tier) (method : MethodId) :
    canon.Keeps (fun _ => True) (Leg.enter tier method) := by
  cases tier with
  | threaded =>
    refine .bind (keeps_ensureThreaded method) fun hasProgram _ => ?_
    exact .bind keeps_get fun _ _ => .pure trivial
  | sequential => exact .bind keeps_get fun _ _ => .pure trivial

theorem Engine.keeps_enter : canon.Keeps (fun _ => True) Engine.enter := by
  refine .bind keeps_get fun machine obeys => ?_
  dsimp only
  split
  · exact keeps_raise _
  · exact fun _ _ => .ok ⟨obeys.heap, obeys.globals⟩ trivial

theorem Live.keeps_start (method : MethodId) {receiver : Value} {arguments : Arguments}
    (given : canon.All (receiver :: arguments.toList)) :
    canon.Keeps (fun started => canon.All started.2.activation.values)
      (Live.start method receiver arguments) := by
  have settled : canon.All (receiver :: arguments.settled.toList) := by
    unfold Arguments.settled
    split <;> exact given
  refine .bind (keeps_ask _) fun code _ => ?_
  refine .bind (Frame.keeps_create code settled) fun frame slots => ?_
  refine .before keeps_enter fun _ => ?_
  refine .before (keeps_ask _) fun catches => ?_
  refine .before (keeps_aside fun _ => rfl) fun _ => ?_
  have starts : canon.Keeps (fun activation => canon.All activation.values)
      (Activation.start method frame) :=
    .before (keeps_ask _) fun _ => .pure (slots.append .nil)
  exact .bind starts fun activation known => .bind keeps_get fun _ _ => .pure known

/-! ### Steps -/

/-- A state as a canon demands. -/
structure State.Obeys (state : State) (canon : Canon) : Prop where
  machine : state.machine.Obeys canon
  focus : canon.All state.focus.values
  waiting : ∀ waits ∈ state.waiting, canon.All waits.held

theorem Live.keeps_close (live : Live) {body : Engine Value}
    (keeps : canon.Keeps canon.holds body) : canon.Keeps canon.holds (live.close body) := by
  have left (ended : Option ContextId) (machine : Machine) (obeys : machine.Obeys canon) :
      (leave ended machine).Obeys canon :=
    ⟨Heap.obeys_finishContext obeys.heap ended, obeys.globals⟩
  intro machine obeys
  have leaves := keeps machine obeys
  rw [Live.close, settle]
  cases ran : body machine with
  | ok value after =>
    rw [ran] at leaves
    cases leaves with
    | ok obeys known => exact .ok (left live.context after obeys) known
  | error abrupt after =>
    rw [ran] at leaves
    cases leaves with
    | error obeys known =>
      cases abrupt with
      | nonLocalReturn value target =>
        dsimp only
        split
        · exact .ok (left live.context after obeys) known.head
        · exact .error (left live.context after obeys) known
      | _ => exact .error (left _ after obeys) .nil

namespace State

variable {waiting : List Waiting}

theorem obeys_of_leaves {α : Type} {post : α → Prop} {computation : Engine α} {machine : Machine}
    (leaves : canon.Leaves post (computation machine)) {done : α → Machine → State}
    {failed : Abrupt → Machine → State}
    (goesOn : ∀ value (machine : Machine), machine.Obeys canon → post value →
      (done value machine).Obeys canon)
    (fails : ∀ abrupt (machine : Machine), machine.Obeys canon →
      canon.All abrupt.values → (failed abrupt machine).Obeys canon) :
    (after computation machine done failed).Obeys canon := by
  unfold after
  cases ran : computation machine with
  | ok value after =>
    rw [ran] at leaves
    cases leaves with
    | ok obeys known => exact goesOn value after obeys known
  | error abrupt after =>
    rw [ran] at leaves
    cases leaves with
    | error obeys known => exact fails abrupt after obeys known

theorem obeys_after {α : Type} {post : α → Prop} {computation : Engine α}
    (keeps : canon.Keeps post computation) {machine : Machine} (obeys : machine.Obeys canon)
    {done : α → Machine → State} {failed : Abrupt → Machine → State}
    (goesOn : ∀ value (machine : Machine), machine.Obeys canon → post value →
      (done value machine).Obeys canon)
    (fails : ∀ abrupt (machine : Machine), machine.Obeys canon →
      canon.All abrupt.values → (failed abrupt machine).Obeys canon) :
    (after computation machine done failed).Obeys canon :=
  obeys_of_leaves (keeps machine obeys) goesOn fails

section

variable (others : ∀ waits ∈ waiting, canon.All waits.held) {machine : Machine}
  (obeys : machine.Obeys canon)

include others obeys

theorem obeys_failed {abrupt : Abrupt} (known : canon.All abrupt.values) :
    (failed waiting abrupt machine).Obeys canon :=
  ⟨obeys, known, others⟩

theorem obeys_concluded (live : Live) {ending : Engine Value}
    (keeps : canon.Keeps canon.holds ending) :
    (concluded live waiting ending machine).Obeys canon :=
  obeys_after (live.keeps_close keeps) obeys
    (fun _ _ obeys known => ⟨obeys, .one known, others⟩)
    fun _ _ obeys known => obeys_failed others obeys known

theorem obeys_abandoned (live : Live) {abrupt : Abrupt}
    (known : canon.All abrupt.values) :
    (abandoned live waiting abrupt machine).Obeys canon :=
  obeys_concluded others obeys live (keeps_throw known)

theorem obeys_proceeded (leg : Leg) (live : Live) {turn : Turn}
    (known : canon.All turn.values) :
    (proceeded leg live waiting turn machine).Obeys canon := by
  cases turn with
  | on activation offset => exact ⟨obeys, known, others⟩
  | exit ending activation =>
    cases ending with
    | answer value => exact obeys_concluded others obeys live (.pure known.head)
    | transfer toward offset stack =>
      have moved : canon.All
          ({ activation with stack } : Activation).values :=
        known.right.left.append known.left
      rw [proceeded]
      exact obeys_after (keeps_countTransfer toward) obeys
        (fun _ _ obeys _ => ⟨obeys, moved, others⟩)
        fun _ _ obeys failed => obeys_abandoned others obeys live failed

theorem obeys_operated {step : OperationStep}
    (known : canon.All step.values) :
    (operated waiting step machine).Obeys canon := by
  cases step with
  | answer value => exact ⟨obeys, known, others⟩
  | call made pending =>
    exact ⟨obeys, known.left, List.forall_mem_cons.mpr ⟨known.right, others⟩⟩

end

/-- After what makes objects or blocks, the canon that has taken over is obeyed. -/
theorem obeyed_after {canons : Succession} {α : Type} {post : Canon → α → Prop}
    {computation : Engine α} (makes : canons.Makes canon post computation) {machine : Machine}
    (obeys : machine.Obeys canon) {done : α → Machine → State}
    {failed : Abrupt → Machine → State}
    (goesOn : ∀ later, canon ≤ later → ∀ value (machine : Machine), machine.Obeys later →
      post later value → (done value machine).Obeys later)
    (fails : ∀ later, canon ≤ later → ∀ abrupt (machine : Machine), machine.Obeys later →
      later.All abrupt.values → (failed abrupt machine).Obeys later) :
    ∃ later, canons.among later ∧ canon ≤ later ∧
      (after computation machine done failed).Obeys later := by
  obtain ⟨later, among, grows, leaves⟩ := makes machine obeys
  exact ⟨later, among, grows, obeys_of_leaves leaves (goesOn later grows) (fails later grows)⟩

/-- A step obeys the canon before it, or one that has taken over. -/
theorem Obeys.step {canons : Succession} (among : canons.among canon) {before after : State}
    (obeys : before.Obeys canon) (stepped : before.step = some after) :
    ∃ later, canons.among later ∧ canon ≤ later ∧ after.Obeys later := by
  obtain ⟨held, focused, others⟩ := obeys
  have same (now : after.Obeys canon) :
      ∃ later, canons.among later ∧ canon ≤ later ∧ after.Obeys later :=
    ⟨canon, among, fun _ holds => holds, now⟩
  have still {later : Canon} (grows : canon ≤ later) :
      ∀ waits ∈ before.waiting, later.All waits.held := fun waits member value held =>
    grows value (others waits member value held)
  cases step_eq_some_iff.mp stepped with
  | operate machine primitive receiver arguments waiting =>
    exact obeyed_after (Operation.makes_start among primitive focused) held
      (fun _ grows _ _ obeys known => obeys_operated (still grows) obeys known)
      fun _ grows _ _ obeys known => obeys_failed (still grows) obeys known
  | start machine method receiver arguments waiting =>
    exact same (obeys_after (Live.keeps_start method focused) held
      (fun _ _ obeys known => ⟨obeys, known, others⟩)
      fun _ _ obeys known => obeys_failed others obeys known)
  | enter machine tier live waiting =>
    exact same (obeys_after (Leg.keeps_enter tier live.activation.method) held
      (fun _ _ obeys _ => ⟨obeys, focused, others⟩)
      fun _ _ obeys known => obeys_abandoned others obeys live known)
  | turn machine leg live waiting =>
    refine obeyed_after (Leg.makes_advance focused among leg live.offset) held
      (fun later grows step _ obeys known => ?_)
      fun _ grows _ _ obeys known => obeys_abandoned (still grows) obeys live known
    cases step with
    | turned turn => exact obeys_proceeded (still grows) obeys leg live known
    | call made activation next reply =>
      exact ⟨obeys, known.left, List.forall_mem_cons.mpr ⟨known.right, still grows⟩⟩
  | answer machine value leg live next reply waiting =>
    obtain ⟨first, rest⟩ := List.forall_mem_cons.mp others
    exact same (obeys_after (Leg.keeps_resume first leg live.offset next reply focused.head) held
      (fun _ _ obeys known => obeys_proceeded rest obeys leg live known)
      fun _ _ obeys known => obeys_abandoned rest obeys live known)
  | resume machine value pending waiting =>
    obtain ⟨first, rest⟩ := List.forall_mem_cons.mp others
    exact same (obeys_after (Pending.keeps_resume first focused.head) held
      (fun _ _ obeys known => obeys_operated rest obeys known)
      fun _ _ obeys known => obeys_failed rest obeys known)
  | abandon machine abrupt leg live next reply waiting =>
    exact same (obeys_abandoned (List.forall_mem_cons.mp others).2 held live focused)
  | unwind machine abrupt pending waiting =>
    exact same (obeys_failed (List.forall_mem_cons.mp others).2 held focused)

end State

end ObjectMachine
