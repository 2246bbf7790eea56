/-
This file follows values through what an activation does. Instructions move values between
the stack, the frame, contexts and fields, and pass them to calls; whatever is not moved has
come out of arithmetic, is as plain as nil, or has just been made. Every part of an instruction
keeps a machine as a canon demands and gives values that the canon holds of when it has been
given such values, and so does the whole, but for the making of a block: there another canon
takes over.
-/

import ObjectMachine.Proofs.CanonicalHeaps
import ObjectMachine.Proofs.Transitions

namespace ObjectMachine

/-! ### The values of what is going on -/

def Activation.values (activation : Activation) : List Value :=
  activation.frame.slots.toList ++ activation.stack.values

def Call.values (made : Call) : List Value := made.receiver :: made.arguments.toList

def Flow.values : Flow → List Value
  | .answer value => [value]
  | _ => []

def Attempt.values : Attempt → List Value
  | .done flow activation => flow.values ++ activation.values
  | .call made activation _ => made.values ++ activation.values

def Turn.values : Turn → List Value
  | .on activation _ => activation.values
  | .exit (.answer value) activation => value :: activation.values
  | .exit (.transfer _ _ stack) activation => stack.values ++ activation.values

def TurnStep.values : TurnStep → List Value
  | .turned turn => turn.values
  | .call made activation _ _ => made.values ++ activation.values

def Pending.values : Pending → List Value
  | .pass => []
  | .eachInteger _ _ _ receiver => [receiver]
  | .eachElement _ _ _ receiver => [receiver]
  | .whileCondition _ body => [body]
  | .whileBody _ body => [body]

/-- The blocks that an operation goes on with. -/
def Pending.blocks : Pending → List BlockId
  | .pass => []
  | .eachInteger block .. | .eachElement _ block .. => [block]
  | .whileCondition condition _ | .whileBody condition _ => [condition]

/-- The values of an operation, its blocks among them. -/
def Pending.held (pending : Pending) : List Value := pending.blocks.map .block ++ pending.values

def OperationStep.values : OperationStep → List Value
  | .answer value => [value]
  | .call made pending => made.values ++ pending.held

def Abrupt.values : Abrupt → List Value
  | .nonLocalReturn value _ => [value]
  | _ => []

def Waiting.values : Waiting → List Value
  | .activation _ live _ _ => live.activation.values
  | .operation pending => pending.values

def Waiting.held : Waiting → List Value
  | .activation _ live _ _ => live.activation.values
  | .operation pending => pending.held

def Focus.values : Focus → List Value
  | .call made => made.values
  | .enter _ live | .turn _ live => live.activation.values
  | .answer value => [value]
  | .fail abrupt => abrupt.values

/-- A canon holds of all of these values. -/
def Canon.All (canon : Canon) (values : List Value) : Prop := ∀ value ∈ values, canon.holds value

namespace Canon.All

variable {canon : Canon} {first second : List Value} {value : Value}

theorem nil : canon.All [] := fun _ member => by cases member

theorem one (holds : canon.holds value) : canon.All [value] :=
  List.forall_mem_singleton.mpr holds

theorem cons (holds : canon.holds value) (others : canon.All second) :
    canon.All (value :: second) :=
  List.forall_mem_cons.mpr ⟨holds, others⟩

theorem append (all : canon.All first) (others : canon.All second) :
    canon.All (first ++ second) :=
  List.forall_mem_append.mpr ⟨all, others⟩

theorem head (all : canon.All (value :: second)) : canon.holds value :=
  all value List.mem_cons_self

theorem tail (all : canon.All (value :: second)) : canon.All second :=
  (List.forall_mem_cons.mp all).2

theorem left (all : canon.All (first ++ second)) : canon.All first :=
  (List.forall_mem_append.mp all).1

theorem right (all : canon.All (first ++ second)) : canon.All second :=
  (List.forall_mem_append.mp all).2

end Canon.All

/-- A machine as a canon demands. -/
structure Machine.Obeys (machine : Machine) (canon : Canon) : Prop where
  heap : machine.heap.Obeys canon
  globals : ∀ name value, machine.globals.get? name = some value → canon.holds value

variable {canon : Canon}

/-! ### Computations -/

namespace Canon

variable (canon : Canon) {α : Type} (post : α → Prop)

/-- A computation ended at a machine that obeys, and the canon holds of what it gave. -/
inductive Leaves : EStateM.Result Abrupt Machine α → Prop
  | ok {value : α} {machine : Machine} (obeys : machine.Obeys canon) (known : post value) :
    Leaves (.ok value machine)
  | error {abrupt : Abrupt} {machine : Machine} (obeys : machine.Obeys canon)
    (known : canon.All abrupt.values) : Leaves (.error abrupt machine)

/-- A computation keeps machines as a canon demands. -/
def Keeps (computation : Engine α) : Prop :=
  ∀ machine : Machine, machine.Obeys canon → canon.Leaves post (computation machine)

end Canon

namespace Canon.Keeps

open Engine

variable {α β : Type} {post : α → Prop}

theorem pure {value : α} (known : post value) : canon.Keeps post (pure value) :=
  fun _ obeys => .ok obeys known

theorem imp {other : α → Prop} {computation : Engine α} (keeps : canon.Keeps post computation)
    (implies : ∀ value, post value → other value) : canon.Keeps other computation := by
  intro machine obeys
  have leaves := keeps machine obeys
  cases ran : computation machine with
  | ok value after =>
    rw [ran] at leaves
    cases leaves with
    | ok obeys known => exact .ok obeys (implies value known)
  | error abrupt after =>
    rw [ran] at leaves
    cases leaves with
    | error obeys known => exact .error obeys known

theorem bind {postNext : β → Prop} {computation : Engine α} {next : α → Engine β}
    (keeps : canon.Keeps post computation)
    (follows : ∀ value, post value → canon.Keeps postNext (next value)) :
    canon.Keeps postNext (computation >>= next) := by
  intro machine obeys
  have leaves := keeps machine obeys
  cases ran : computation machine with
  | ok value after =>
    rw [bind_of_ok ran]
    rw [ran] at leaves
    cases leaves with
    | ok obeys known => exact follows value known after obeys
  | error abrupt after =>
    rw [bind_of_error ran]
    rw [ran] at leaves
    cases leaves with
    | error obeys known => exact .error obeys known

/-- What comes next does not depend on what is found out first. -/
theorem before {postNext : β → Prop} {computation : Engine α} {next : α → Engine β}
    (keeps : canon.Keeps (fun _ => True) computation)
    (follows : ∀ value, canon.Keeps postNext (next value)) :
    canon.Keeps postNext (computation >>= next) :=
  .bind keeps fun value _ => follows value

end Canon.Keeps

/-- A computation leaves a machine as the canon demands that has taken over by then. -/
def Succession.Makes (canons : Succession) (canon : Canon) {α : Type} (post : Canon → α → Prop)
    (computation : Engine α) : Prop :=
  ∀ machine : Machine, machine.Obeys canon → ∃ later, canons.among later ∧ canon ≤ later ∧
    later.Leaves (post later) (computation machine)

section

open Engine

variable {canons : Succession} {α β : Type} {post : Canon → α → Prop}
  {postNext : Canon → β → Prop} {computation : Engine α} {next : α → Engine β}

theorem Canon.Keeps.makes (keeps : canon.Keeps (post canon) computation)
    (among : canons.among canon) : canons.Makes canon post computation :=
  fun machine obeys => ⟨canon, among, fun _ holds => holds, keeps machine obeys⟩

/-- What comes first makes nothing. -/
theorem Canon.Keeps.first {known : α → Prop} (keeps : canon.Keeps known computation)
    (among : canons.among canon)
    (follows : ∀ value, known value → canons.Makes canon postNext (next value)) :
    canons.Makes canon postNext (computation >>= next) := by
  intro machine obeys
  have leaves := keeps machine obeys
  cases ran : computation machine with
  | ok value after =>
    rw [ran] at leaves
    cases leaves with
    | ok obeys known =>
      rw [bind_of_ok ran]
      exact follows value known after obeys
  | error abrupt after =>
    rw [ran] at leaves
    rw [bind_of_error ran]
    cases leaves with
    | error obeys known => exact ⟨canon, among, fun _ holds => holds, .error obeys known⟩

/-- What comes next makes nothing. -/
theorem Succession.Makes.bind (makes : canons.Makes canon post computation)
    (follows : ∀ later, canons.among later → canon ≤ later → ∀ value, post later value →
      later.Keeps (postNext later) (next value)) :
    canons.Makes canon postNext (computation >>= next) := by
  intro machine obeys
  obtain ⟨later, among, grows, leaves⟩ := makes machine obeys
  refine ⟨later, among, grows, ?_⟩
  cases ran : computation machine with
  | ok value after =>
    rw [ran] at leaves
    rw [bind_of_ok ran]
    cases leaves with
    | ok obeys known => exact follows later among grows value known after obeys
  | error abrupt after =>
    rw [ran] at leaves
    rw [bind_of_error ran]
    cases leaves with
    | error obeys known => exact .error obeys known

end

namespace Engine

section

variable {α : Type} {post : α → Prop}

theorem keeps_throw {abrupt : Abrupt} (known : canon.All abrupt.values) :
    canon.Keeps post (throw abrupt : Engine α) :=
  fun _ obeys => .error obeys known

theorem keeps_raise (cause : RuntimeError) : canon.Keeps post (raise cause : Engine α) :=
  keeps_throw .nil

theorem keeps_indexFault : canon.Keeps post (throw .indexFault : Engine α) :=
  keeps_throw .nil

theorem keeps_orFault (found : Option α) : canon.Keeps (found = some ·) (orFault found) := by
  cases found with
  | some value => exact .pure rfl
  | none => exact keeps_indexFault

theorem keeps_orRaise (result : Except RuntimeError α) :
    canon.Keeps (result = .ok ·) (orRaise result) := by
  cases result with
  | ok value => exact .pure rfl
  | error cause => exact keeps_raise cause

theorem keeps_get : canon.Keeps (·.Obeys canon) (get : Engine Machine) :=
  fun _ obeys => .ok obeys obeys

/-- What is read off a heap that obeys. -/
theorem keeps_read {read : Heap → α} (known : ∀ heap : Heap, heap.Obeys canon → post (read heap)) :
    canon.Keeps post (heapValue read) :=
  fun machine obeys => .ok obeys (known machine.heap obeys.heap)

/-- A value that is read off a heap that obeys, if there is one. -/
theorem keeps_find {read : Heap → Option Value}
    (known : ∀ heap : Heap, heap.Obeys canon → ∀ value, read heap = some value →
      canon.holds value) :
    canon.Keeps (fun found => ∀ value, found = some value → canon.holds value) (heapValue read) :=
  keeps_read known

theorem keeps_ask (read : Heap → α) : canon.Keeps (fun _ => True) (heapValue read) :=
  keeps_read fun _ _ => trivial

theorem Looks.keeps {computation : Engine α} (looks : Looks computation) :
    canon.Keeps (fun _ => True) computation := by
  intro machine obeys
  cases ran : computation machine with
  | ok value after =>
    obtain rfl := looks.of_ok ran
    exact .ok obeys trivial
  | error abrupt after =>
    obtain ⟨rfl, ordinary⟩ := looks.of_error ran
    refine .error obeys ?_
    cases abrupt with
    | nonLocalReturn value target => exact absurd rfl (ordinary value target)
    | _ => exact .nil

theorem keeps_modify {change : Machine → Machine}
    (known : ∀ machine : Machine, machine.Obeys canon → (change machine).Obeys canon) :
    canon.Keeps (fun _ => True) (modify change : Engine Unit) :=
  fun machine obeys => .ok (known machine obeys) trivial

theorem keeps_change {change : Heap → Heap}
    (known : ∀ heap : Heap, heap.Obeys canon → (change heap).Obeys canon) :
    canon.Keeps (fun _ => True) (changeHeap change) :=
  fun machine obeys => .ok ⟨known machine.heap obeys.heap, obeys.globals⟩ trivial

/-- A change that leaves all tables alone that values are kept in. -/
theorem keeps_aside {change : Heap → Heap} (same : ∀ heap, (change heap).stock = heap.stock) :
    canon.Keeps (fun _ => True) (changeHeap change) :=
  keeps_change fun heap obeys => by
    refine ⟨?_, canon.aside ?_ obeys.rows⟩
    · rw [same]
      exact obeys.stores
    · rw [same]
      exact ⟨rfl, rfl, rfl, rfl⟩

theorem keeps_change? {change : Heap → Option Heap}
    (known : ∀ heap after : Heap, heap.Obeys canon → change heap = some after → after.Obeys canon) :
    canon.Keeps (fun _ => True) (changeHeap? change) := by
  intro machine obeys
  unfold changeHeap?
  split
  · rename_i after changed
    exact .ok ⟨known _ _ obeys.heap changed, obeys.globals⟩ trivial
  · exact .error obeys .nil

theorem keeps_allocate {add : Heap → α × Heap}
    (known : ∀ heap : Heap, heap.Obeys canon → (add heap).2.Obeys canon) :
    canon.Keeps (fun _ => True) (allocate add) :=
  fun machine obeys => .ok ⟨known machine.heap obeys.heap, obeys.globals⟩ trivial

end

theorem keeps_newArray {values : Array Value} (given : ∀ value ∈ values, canon.holds value) :
    canon.Keeps canon.holds (newArray values) :=
  .bind (keeps_allocate fun _ obeys => Heap.obeys_addArray obeys given) fun _ _ =>
    .pure (canon.plain rfl)

theorem keeps_badBytecode {α : Type} {post : α → Prop} (method : MethodId)
    (error : DecodeError) : canon.Keeps post (badBytecode method error) := by
  have fails : canon.Keeps (fun _ => False) (badBytecode method error : Engine α) := by
    refine .bind (keeps_ask _) fun code _ => ?_
    refine .bind (keeps_ask _) fun signature _ => ?_
    refine .bind (keeps_ask _) fun listing? _ => ?_
    exact .before (looks_orEndless listing?).keeps fun listing => keeps_raise _
  exact fails.imp fun _ absurd => absurd.elim

theorem keeps_migrateIfStale {value : Value} (given : canon.holds value) :
    canon.Keeps (fun _ => True) (migrateIfStale value) := by
  cases value with
  | object object =>
    refine .bind (keeps_ask _) fun stale _ => ?_
    split
    · exact keeps_change? fun _ _ obeys => Heap.obeys_migrate? obeys given
    · exact .pure trivial
  | _ => exact .pure trivial

theorem keeps_getField (object : InstanceId) (field : Nat) :
    canon.Keeps canon.holds (getField object field) := by
  refine .bind (keeps_find fun heap obeys value => Heap.holds_getField? obeys.stores)
    fun found known => ?_
  exact (keeps_orFault found).imp known

theorem keeps_setField {object : InstanceId} (mine : canon.holds (.object object)) (field : Nat)
    {value : Value} (given : canon.holds value) :
    canon.Keeps (fun _ => True) (setField object field value) :=
  keeps_change? fun _ _ obeys => Heap.obeys_setField? obeys mine given

theorem keeps_ensureThreaded (method : MethodId) :
    canon.Keeps (fun _ => True) (ensureThreaded method) := by
  refine .bind (keeps_ask _) fun state _ => ?_
  refine .bind keeps_get fun machine _ => ?_
  split
  · exact .pure trivial
  · split
    · exact .pure trivial
    · refine .before ?_ fun program =>
        .before (keeps_aside fun _ => rfl) fun _ => .pure trivial
      refine .bind keeps_get fun machine _ => ?_
      refine .bind (keeps_modify fun _ obeys => ⟨obeys.heap, obeys.globals⟩)
        fun _ _ => ?_
      split
      · exact .pure trivial
      · exact keeps_badBytecode method _

theorem keeps_takeBackEdge (method : MethodId) (offset : Nat) :
    canon.Keeps (fun _ => True) (takeBackEdge method offset) := by
  refine .bind keeps_get fun machine _ => ?_
  refine .bind (keeps_ask _) fun taken _ => ?_
  exact .bind (keeps_aside fun _ => rfl) fun _ _ => .pure trivial

theorem keeps_countTransfer (toward : Tier) : canon.Keeps (fun _ => True) (countTransfer toward) :=
  keeps_modify fun _ obeys => by cases toward <;> exact ⟨obeys.heap, obeys.globals⟩

end Engine

open Engine

/-! ### Frames -/

namespace Frame

variable {frame : Frame}

theorem keeps_start {method : Method} {receiver : Value} (given : canon.holds receiver) :
    canon.Keeps (fun frame => canon.All frame.slots.toList) (start method receiver) := by
  have blank (size : Nat) : ∀ value ∈ (Array.replicate size Value.nil).setIfInBounds 0 receiver,
      canon.holds value :=
    canon.setIfInBounds (canon.replicate size) given
  have slots (context : Option ContextId) :
      canon.Keeps (fun frame => canon.All frame.slots.toList) (pure
        (⟨(Array.replicate (max method.frameSize 1) Value.nil).setIfInBounds 0 receiver,
          context⟩ : Frame)) :=
    .pure fun value member => blank _ value (Array.mem_toList_iff.mp member)
  unfold start
  split
  · exact slots none
  · refine .before ?_ fun context => slots context
    exact .bind (keeps_allocate fun _ obeys => Heap.obeys_addContext obeys (blank _))
      fun _ _ => .pure trivial

theorem keeps_place (obeys : canon.All frame.slots.toList) (place : VariablePlace)
    {value : Value} (given : canon.holds value) :
    canon.Keeps (fun frame => canon.All frame.slots.toList) (frame.place place value) := by
  cases place with
  | frame slot =>
    have slots (value : Value) (member : value ∈ frame.slots) : canon.holds value :=
      obeys value (Array.mem_toList_iff.mpr member)
    exact .pure fun held member =>
      canon.setIfInBounds slots given held (Array.mem_toList_iff.mp member)
  | inner slot =>
    rw [Frame.place]
    cases frame.context with
    | none => exact .pure obeys
    | some context =>
      exact .bind (keeps_change fun _ held => Heap.obeys_setContextSlot held context slot given)
        fun _ _ => .pure obeys

theorem keeps_placeAll {values : List Value} (given : canon.All values)
    (places : List VariablePlace) (obeys : canon.All frame.slots.toList) :
    canon.Keeps (fun frame => canon.All frame.slots.toList) (frame.placeAll places values) := by
  induction values generalizing frame places with
  | nil =>
    cases places <;> exact .pure obeys
  | cons value rest inductionHypothesis =>
    cases places with
    | nil => exact .pure obeys
    | cons place places =>
      exact .bind (keeps_place obeys place given.head) fun frame obeys =>
        inductionHypothesis given.tail places obeys

theorem keeps_create (method : Method) {receiver : Value} {arguments : Arguments}
    (given : canon.All (receiver :: arguments.toList)) :
    canon.Keeps (fun frame => canon.All frame.slots.toList) (create method receiver arguments) := by
  have starts : canon.Keeps (fun frame => canon.All frame.slots.toList) (start method receiver) :=
    keeps_start given.head
  have places (position : Nat) {value : Value} (known : canon.holds value) (frame : Frame)
      (obeys : canon.All frame.slots.toList) :
      canon.Keeps (fun frame => canon.All frame.slots.toList)
        (do frame.place (← orFault method.scope.own.arguments[position]?) value) :=
    .bind (keeps_orFault _) fun place _ => keeps_place obeys place known
  cases arguments with
  | none => exact starts
  | one first => exact .bind starts (places 0 given.tail.head)
  | two first second =>
    refine .bind starts fun frame obeys => ?_
    show canon.Keeps _ (orFault method.scope.own.arguments[0]? >>= fun place =>
      frame.place place first >>= fun frame => _)
    rw [← bind_assoc]
    exact .bind (places 0 given.tail.head frame obeys) (places 1 given.tail.tail.head)
  | many values =>
    exact .bind starts fun frame obeys => keeps_placeAll given.tail _ obeys

theorem keeps_get (obeys : canon.All frame.slots.toList) (slot : Nat) :
    canon.Keeps canon.holds (frame.get slot) :=
  (keeps_orFault _).imp fun value found =>
    obeys value (Array.mem_toList_iff.mpr (Array.mem_of_getElem? found))

theorem keeps_set (obeys : canon.All frame.slots.toList) (slot : Nat) {value : Value}
    (given : canon.holds value) :
    canon.Keeps (fun frame => canon.All frame.slots.toList) (frame.set slot value) := by
  unfold set
  split
  · exact keeps_place obeys (.frame slot) given
  · exact keeps_indexFault

theorem keeps_getInner (context : ContextId) (slot : Nat) :
    canon.Keeps canon.holds (getInner context slot) := by
  refine .bind (keeps_find fun heap obeys value found => ?_) fun found known =>
    (keeps_orFault found).imp known
  exact obeys.stores.slots context value (Array.mem_of_getElem? found)

theorem keeps_setInner (context : ContextId) (slot : Nat) {value : Value}
    (given : canon.holds value) : canon.Keeps (fun _ => True) (setInner context slot value) := by
  refine .bind (keeps_ask _) fun size _ => ?_
  split
  · exact keeps_change fun _ obeys =>
      Heap.obeys_setContextSlot obeys context slot given
  · exact keeps_indexFault

theorem holds_receiver (obeys : canon.All frame.slots.toList) :
    canon.holds frame.receiver := by
  rw [receiver, Array.getD_eq_getD_getElem?]
  cases found : frame.slots[0]? with
  | none => exact canon.nil
  | some value => exact obeys value (Array.mem_toList_iff.mpr (Array.mem_of_getElem? found))

theorem keeps_receiverAt (obeys : canon.All frame.slots.toList) (level : Nat) :
    canon.Keeps canon.holds (frame.receiverAt level) := by
  unfold receiverAt
  split
  · exact .pure (holds_receiver obeys)
  · exact .bind (looks_contextAt frame level).keeps fun context _ => keeps_getInner context 0

/-- The path to the home receiver leads through slots of contexts. -/
theorem holds_homeReceiverFrom {heap : Heap} (obeys : heap.Obeys canon) {room : Nat}
    {value found : Value} (given : canon.holds value)
    (reached : homeReceiverFrom heap room value = some found) : canon.holds found := by
  induction room generalizing value with
  | zero => cases reached
  | succ room inductionHypothesis =>
    cases value with
    | block block =>
      simp only [homeReceiverFrom] at reached
      cases outer : outerReceiver? heap block with
      | none =>
        rw [outer] at reached
        cases reached
        exact given
      | some value =>
        rw [outer] at reached
        refine inductionHypothesis ?_ reached
        obtain ⟨context, located, rfl⟩ := Option.map_eq_some_iff.mp outer
        obtain ⟨row, -, rfl⟩ := Option.map_eq_some_iff.mp located
        rw [Array.getD_eq_getD_getElem?]
        cases held : (heap.contexts.get row).slots[0]? with
        | none => exact canon.nil
        | some value => exact obeys.stores.slots row value (Array.mem_of_getElem? held)
    | _ =>
      cases reached
      exact given

theorem keeps_homeReceiver (obeys : canon.All frame.slots.toList) :
    canon.Keeps canon.holds frame.homeReceiver := by
  refine .bind (keeps_find fun heap held value =>
    holds_homeReceiverFrom held (holds_receiver obeys)) fun found known => ?_
  cases found with
  | some value => exact .pure (known value rfl)
  | none => exact keeps_throw .nil

end Frame

/-! ### Activations -/

namespace Activation

variable {activation : Activation} (obeys : canon.All activation.values)

theorem keeps_orStackFault {α : Type} (found : Option α) :
    canon.Keeps (found = some ·) (activation.orStackFault found) := by
  cases found with
  | some value => exact .pure rfl
  | none => exact keeps_throw .nil

theorem keeps_literal? (index : UInt8) :
    canon.Keeps (fun found => ∀ value, found = some value → canon.holds value)
      (activation.literal? index) :=
  keeps_read fun _ obeys value found =>
    obeys.stores.literals activation.method value (Array.mem_of_getElem? found)

theorem keeps_literal (offset : Nat) (index : UInt8) :
    canon.Keeps canon.holds (activation.literal offset index) := by
  refine .bind (keeps_literal? index) fun found known => ?_
  cases found with
  | some value => exact .pure (known value rfl)
  | none => exact keeps_badBytecode _ _

theorem keeps_lookupAtSite (offset : Nat) (cls : ClassId) (shape : ShapeId)
    (selector : Symbol) :
    canon.Keeps (fun _ => True) (activation.lookupAtSite offset cls shape selector) := by
  refine .bind (keeps_ask _) fun _ _ => ?_
  exact .bind (keeps_aside fun _ => rfl) fun _ _ => .pure trivial

/-- Where a block is made, a canon that holds of it takes over. -/
theorem makes_makeBlock {canons : Succession} (among : canons.among canon) (literal : UInt8)
    (captures : Bool) :
    canons.Makes canon (fun later => later.holds) (activation.makeBlock literal captures) := by
  refine (keeps_literal? literal).first among fun found _ => ?_
  split
  · rename_i method _
    intro machine obeys
    obtain ⟨later, also, grows, rows, holds⟩ := canons.newBlock
      ⟨method, if captures then activation.frame.context else none⟩ among obeys.heap.rows
    refine ⟨later, also, grows, .ok ⟨⟨?_, rows⟩, fun name value found => ?_⟩ holds⟩
    · exact { obeys.heap.stores.imp grows with }
    · exact grows value (obeys.globals name value found)
  · exact (keeps_raise _).makes among
  · exact (keeps_raise _).makes among

include obeys

theorem keeps_push {value : Value} (given : canon.holds value) :
    canon.Keeps (fun after => canon.All after.values) (activation.push value) := by
  refine .bind (keeps_orStackFault _) fun stack pushed => .pure (obeys.left.append ?_)
  unfold OperandStack.push? at pushed
  split at pushed
  · cases pushed
  · cases pushed
    exact .cons given obeys.right

theorem keeps_pop :
    canon.Keeps (fun popped => canon.holds popped.1 ∧ canon.All popped.2.values)
      activation.pop := by
  refine .bind (keeps_orStackFault _) fun popped found => ?_
  unfold OperandStack.pop? at found
  split at found
  · cases found
  · rename_i top rest values
    cases found
    have stack : canon.All (top :: rest) := values ▸ obeys.right
    exact .pure ⟨stack.head, obeys.left.append stack.tail⟩

theorem keeps_peek (below : Nat) : canon.Keeps canon.holds (activation.peek below) :=
  (keeps_orStackFault _).imp fun value found =>
    obeys.right value (List.mem_of_getElem? found)

theorem keeps_setTop {value : Value} (given : canon.holds value) :
    canon.Keeps (fun after => canon.All after.values) (activation.setTop value) := by
  refine .bind (keeps_orStackFault _) fun stack set => .pure (obeys.left.append ?_)
  unfold OperandStack.setTop? at set
  split at set
  · cases set
  · rename_i top rest values
    cases set
    have stack : canon.All (top :: rest) := values ▸ obeys.right
    exact .cons given stack.tail

theorem keeps_take (count : Nat) :
    canon.Keeps (fun taken => canon.All taken.1 ∧ canon.All taken.2.values)
      (activation.take count) := by
  refine .bind (keeps_orStackFault _) fun taken found => ?_
  unfold OperandStack.take? at found
  split at found
  · cases found
    exact .pure ⟨fun value member =>
      obeys.right value (List.mem_of_mem_take (List.mem_reverse.mp member)),
      obeys.left.append fun value member =>
        obeys.right value (List.mem_of_mem_drop member)⟩
  · cases found

theorem keeps_drop (count : Nat) :
    canon.Keeps (fun after => canon.All after.values) (activation.drop count) := by
  refine .bind (keeps_orStackFault _) fun stack dropped => .pure (obeys.left.append ?_)
  obtain ⟨taken, found, rfl⟩ := Option.map_eq_some_iff.mp dropped
  unfold OperandStack.take? at found
  split at found
  · cases found
    exact fun value member => obeys.right value (List.mem_of_mem_drop member)
  · cases found

theorem keeps_receiverInstance (level : UInt8) :
    canon.Keeps (fun object => canon.holds (.object object))
      (activation.receiverInstance level) := by
  refine .bind (Frame.keeps_receiverAt obeys.left _) fun receiver given => ?_
  cases receiver with
  | object object => exact .pure given
  | _ => exact keeps_raise _

theorem keeps_incrementField (field level : UInt8) :
    canon.Keeps canon.holds (activation.incrementField field level) := by
  refine .bind (keeps_receiverInstance obeys level) fun object mine => ?_
  refine .bind (keeps_getField object field.toNat) fun value _ => ?_
  refine .bind (keeps_orRaise _) fun next answers => ?_
  have given : canon.holds next := canon.of_increment answers
  exact .bind (keeps_setField mine field.toNat given) fun _ _ => .pure given

theorem keeps_incrementTop (delta : Int64) (operation : String) :
    canon.Keeps (fun after => canon.All after.values)
      (activation.incrementTop delta operation) := by
  refine .bind (keeps_peek obeys 0) fun top _ => ?_
  exact .bind (keeps_orRaise _) fun value answers =>
    keeps_setTop obeys (canon.of_increment answers)

end Activation

/-! ### Calls -/

namespace Engine

theorem keeps_handlerCall {receiver : Value} {arguments : List Value}
    (given : canon.All (receiver :: arguments)) (cls : ClassId) (selector : Symbol) :
    canon.Keeps (fun made => canon.All made.values)
      (handlerCall receiver cls selector arguments) := by
  refine .bind keeps_get fun machine _ => ?_
  refine .bind (keeps_ask _) fun handler _ => ?_
  cases handler with
  | none => exact .bind (keeps_ask _) fun _ _ => keeps_raise _
  | some handler =>
    refine .bind (keeps_newArray fun value member => given.tail value ?_) fun array known => ?_
    · exact (List.mem_toArray.mp member)
    · exact .pure (.cons given.head (.cons (canon.plain rfl) (.one known)))

theorem keeps_messageCall {receiver : Value} {arguments : List Value}
    (given : canon.All (receiver :: arguments)) (selector : Symbol) :
    canon.Keeps (fun made => canon.All made.values) (messageCall receiver selector arguments) := by
  refine .bind (keeps_migrateIfStale given.head) fun _ _ => ?_
  refine .bind (keeps_ask _) fun cls _ => ?_
  refine .bind (keeps_ask _) fun target _ => ?_
  cases target with
  | none => exact keeps_handlerCall given cls selector
  | some target => exact .pure given

end Engine

theorem Caller.keeps_evaluation {block : BlockId} (mine : canon.holds (.block block))
    {arguments : Arguments} (given : canon.All arguments.toList) :
    canon.Keeps (fun made => canon.All made.values) (Caller.evaluation block arguments) := by
  refine .bind (keeps_ask _) fun method _ => ?_
  refine .bind (keeps_ask _) fun expected _ => ?_
  dsimp only
  split
  · exact .pure (.cons mine given)
  · exact keeps_raise _

namespace Activation

variable {activation : Activation} (obeys : canon.All activation.values)

include obeys

theorem keeps_takeCall (target : Invokable) (count : Nat) :
    canon.Keeps (fun taken => canon.All taken.1.values ∧ canon.All taken.2.values)
      (activation.takeCall target count) := by
  unfold takeCall
  split
  · exact .bind (keeps_pop obeys) fun receiver known => .pure ⟨.one known.1, known.2⟩
  · refine .bind (keeps_pop obeys) fun first given => ?_
    exact .bind (keeps_pop given.2) fun receiver known =>
      .pure ⟨.cons known.1 (.one given.1), known.2⟩
  · refine .bind (keeps_pop obeys) fun second also => ?_
    refine .bind (keeps_pop also.2) fun first given => ?_
    exact .bind (keeps_pop given.2) fun receiver known =>
      .pure ⟨.cons known.1 (.cons given.1 (.one also.1)), known.2⟩
  · refine .bind (keeps_take obeys _) fun arguments given => ?_
    exact .bind (keeps_pop given.2) fun receiver known =>
      .pure ⟨.cons known.1 given.1, known.2⟩

theorem keeps_takeHandlerCall (cls : ClassId) (selector : Symbol) (count : Nat) :
    canon.Keeps (fun taken => canon.All taken.1.values ∧ canon.All taken.2.values)
      (activation.takeHandlerCall cls selector count) := by
  refine .bind (keeps_take obeys _) fun arguments given => ?_
  refine .bind (keeps_pop given.2) fun receiver known => ?_
  exact .bind (keeps_handlerCall (.cons known.1 given.1) cls selector) fun made handled =>
    .pure ⟨handled, known.2⟩

theorem keeps_foundCall (found : Option Invokable) (cls : ClassId) (selector : Symbol)
    (count : Nat) :
    canon.Keeps (fun attempt => canon.All attempt.values)
      (activation.foundCall found cls selector count) := by
  unfold foundCall
  cases found with
  | some target =>
    exact .bind (keeps_takeCall obeys target count) fun made known =>
      .pure (known.1.append known.2)
  | none =>
    exact .bind (keeps_takeHandlerCall obeys cls selector count) fun made known =>
      .pure (known.1.append known.2)

theorem keeps_sendAttempt (offset : Nat) (literal : UInt8) (arity : Arity) :
    canon.Keeps (fun attempt => canon.All attempt.values)
      (activation.sendAttempt offset literal arity) := by
  refine .bind (looks_selector literal).keeps fun selector _ => ?_
  refine .bind (looks_valueCount selector arity).keeps fun count _ => ?_
  refine .bind (keeps_peek obeys _) fun receiver given => ?_
  refine .bind (keeps_ask _) fun stale _ => ?_
  split
  · refine .bind (keeps_migrateIfStale given) fun _ _ => ?_
    exact .bind (keeps_aside fun _ => rfl) fun _ _ => .pure obeys
  · refine .bind (keeps_ask _) fun cls _ => ?_
    refine .bind (keeps_aside fun _ => rfl) fun _ _ => ?_
    refine .bind (keeps_ask _) fun shape _ => ?_
    refine .bind (keeps_lookupAtSite offset cls shape selector) fun found _ => ?_
    exact keeps_foundCall obeys found cls selector count

theorem keeps_sendInlinedAttempt (offset : Nat) (literal : UInt8) (arity : Arity) :
    canon.Keeps (fun attempt => canon.All attempt.values)
      (activation.sendInlinedAttempt offset literal arity) := by
  refine .bind (keeps_ask _) fun site _ => ?_
  split
  · refine .bind (keeps_peek obeys _) fun receiver _ => ?_
    refine .bind (keeps_ask _) fun hit _ => ?_
    split
    · exact .bind (keeps_takeCall obeys _ _) fun made known =>
        .pure (known.1.append known.2)
    · exact keeps_sendAttempt obeys offset literal arity
  · exact keeps_sendAttempt obeys offset literal arity

theorem keeps_quickSuperSendAttempt (offset : Nat) (literal : UInt8) (arity : Arity) :
    canon.Keeps (fun attempt => canon.All attempt.values)
      (activation.quickSuperSendAttempt offset literal arity) := by
  refine .bind (looks_selector literal).keeps fun selector _ => ?_
  refine .bind (looks_valueCount selector arity).keeps fun count _ => ?_
  refine .bind (keeps_ask _) fun holder _ => ?_
  cases holder with
  | none => exact keeps_raise _
  | some holder =>
    refine .bind (keeps_ask _) fun superclass _ => ?_
    cases superclass with
    | none => exact keeps_foundCall obeys none holder selector count
    | some superclass =>
      refine .bind (keeps_ask _) fun shape _ => ?_
      refine .bind (keeps_lookupAtSite offset superclass shape selector) fun found _ => ?_
      exact keeps_foundCall obeys found superclass selector count

theorem keeps_globalAttempt (offset : Nat) (literal : UInt8) :
    canon.Keeps (fun attempt => canon.All attempt.values)
      (activation.globalAttempt offset literal) := by
  refine .bind (keeps_literal offset literal) fun value _ => ?_
  cases value with
  | symbol name =>
    refine .bind Engine.keeps_get fun machine held => ?_
    cases found : machine.globals.get? name with
    | some value =>
      exact .bind (keeps_push obeys (held.globals name value found)) fun _ pushed =>
        .pure pushed
    | none =>
      refine .bind (Frame.keeps_homeReceiver obeys.left) fun receiver known => ?_
      refine .bind Engine.keeps_get fun machine _ => ?_
      exact .bind (keeps_messageCall (.cons known (.one (canon.plain rfl))) _)
        fun made called => .pure (called.append obeys)
  | _ => exact keeps_raise _

theorem keeps_escapeCall :
    canon.Keeps (fun made => canon.All made.values) activation.escapeCall := by
  refine .bind (Frame.keeps_homeReceiver obeys.left) fun receiver home => ?_
  refine .bind Engine.keeps_get fun machine _ => ?_
  exact keeps_messageCall (.cons home (.one (Frame.holds_receiver obeys.left))) _

theorem keeps_returnNonLocalAttempt (level : UInt8) :
    canon.Keeps (fun attempt => canon.All attempt.values)
      (activation.returnNonLocalAttempt level) := by
  refine .bind (keeps_pop obeys) fun popped known => ?_
  obtain ⟨value, activation⟩ := popped
  dsimp only
  split
  · exact .pure (.cons known.1 known.2)
  · refine .bind (Frame.looks_blockAt _ _).keeps fun block _ => ?_
    refine .bind (keeps_ask _) fun context _ => ?_
    cases context with
    | none => exact keeps_raise _
    | some target =>
      refine .bind (keeps_ask _) fun running _ => ?_
      split
      · exact keeps_throw (.one known.1)
      · exact .bind (keeps_escapeCall known.2) fun made called => .pure (called.append known.2)

/-! ### Instructions -/

theorem keeps_branch (offset : Nat) (instruction : Instruction) (wanted leavesNil : Bool) :
    canon.Keeps (fun done => canon.All (done.1.values ++ done.2.values))
      (activation.branch offset instruction wanted leavesNil) := by
  have jumps (after : Activation) (obeys : canon.All after.values) :
      canon.Keeps (fun done : Flow × Activation => canon.All (done.1.values ++ done.2.values))
        (do return (Flow.jump (← after.jumpTarget offset instruction), after)) :=
    .bind (looks_jumpTarget offset instruction).keeps fun _ _ => .pure obeys
  refine .bind (keeps_pop obeys) fun popped known => ?_
  dsimp only
  split
  · cases leavesNil with
    | true => exact .bind (keeps_push known.2 canon.nil) jumps
    | false => exact jumps popped.2 known.2
  · exact .pure known.2

theorem keeps_resolveAccess (offset : Nat) (instruction : Instruction) :
    canon.Keeps (fun done => canon.All (done.1.values ++ done.2.values))
      (activation.resolveAccess offset instruction) := by
  refine .bind (keeps_ask _) fun scope _ => ?_
  split
  · exact .bind (keeps_aside fun _ => rfl) fun _ _ => .pure obeys
  · exact .bind (keeps_ask _) fun _ _ => keeps_raise _

theorem keeps_quickenSuperSend (offset : Nat) (literal : UInt8) :
    canon.Keeps (fun done => canon.All (done.1.values ++ done.2.values))
      (activation.quickenSuperSend offset literal) := by
  refine .bind (keeps_literal offset literal) fun value _ => ?_
  cases value with
  | symbol selector =>
    refine .bind (keeps_ask _) fun count _ => ?_
    exact .bind (keeps_aside fun _ => rfl) fun _ _ => .pure obeys
  | _ => exact keeps_raise _

/-- The push of what a computation gives. -/
theorem keeps_pushNext {computation : Engine Value} (keeps : canon.Keeps canon.holds computation) :
    canon.Keeps (fun done => canon.All (done.1.values ++ done.2.values))
      (do return (Flow.next, ← activation.push (← computation))) :=
  .bind keeps fun _ given => .bind (keeps_push obeys given) fun _ pushed => .pure pushed

theorem keeps_storeInner {computation : Engine ContextId}
    (keeps : canon.Keeps (fun _ => True) computation) (slot : UInt8) {value : Value}
    (given : canon.holds value) :
    canon.Keeps (fun done => canon.All (done.1.values ++ done.2.values)) (do
      Frame.setInner (← computation) slot.toNat value
      return (Flow.next, activation)) :=
  .bind keeps fun context _ =>
    .bind (Frame.keeps_setInner context slot.toNat given) fun _ _ => .pure obeys

omit obeys in
theorem keeps_done {computation : Engine (Flow × Activation)}
    (keeps : canon.Keeps (fun done => canon.All (done.1.values ++ done.2.values)) computation) :
    canon.Keeps (fun attempt => canon.All attempt.values)
      (do let made ← computation; return Attempt.done made.1 made.2) :=
  .bind keeps fun _ known => .pure known

/-- Whatever does not make a block. -/
theorem keeps_begin (offset : Nat) {instruction : Instruction}
    (other : ∀ literal captures, instruction ≠ .pushBlock literal captures) :
    canon.Keeps (fun attempt => canon.All attempt.values)
      (activation.begin offset instruction) := by
  cases instruction with
  | halt | returnLocal =>
    exact keeps_done (.bind (keeps_pop obeys) fun _ known => .pure (.cons known.1 known.2))
  | dup | dupSecond => exact keeps_done (keeps_pushNext obeys (keeps_peek obeys _))
  | pushFrame slot =>
    exact keeps_done (keeps_pushNext obeys (Frame.keeps_get obeys.left _))
  | pushInner slot level =>
    exact keeps_done (.bind (Frame.looks_contextAt _ _).keeps fun context _ =>
      keeps_pushNext obeys (Frame.keeps_getInner context _))
  | pushField field level =>
    exact keeps_done (.bind (keeps_receiverInstance obeys level) fun object _ =>
      keeps_pushNext obeys (keeps_getField object _))
  | pushBlock literal captures =>
    exact (other literal captures rfl).elim
  | pushConstant literal =>
    exact keeps_done (keeps_pushNext obeys (keeps_literal offset literal))
  | pushZero | pushOne =>
    exact keeps_done (keeps_pushNext obeys (.pure (canon.integer _)))
  | pushNil => exact keeps_done (keeps_pushNext obeys (.pure canon.nil))
  | pushGlobal literal => exact keeps_globalAttempt obeys offset literal
  | pop => exact keeps_done (.bind (keeps_pop obeys) fun _ known => .pure known.2)
  | popFrame slot =>
    refine keeps_done (.bind (keeps_pop obeys) fun popped known => ?_)
    exact .bind (Frame.keeps_set known.2.left slot.toNat known.1) fun frame stored =>
      .pure (stored.append known.2.right)
  | popInner slot level =>
    refine keeps_done (.bind (keeps_pop obeys) fun popped known => ?_)
    exact keeps_storeInner known.2 (Frame.looks_contextAt _ _).keeps slot known.1
  | popField field level =>
    refine keeps_done (.bind (keeps_pop obeys) fun popped known => ?_)
    refine .bind (keeps_receiverInstance known.2 level) fun object mine => ?_
    exact .bind (keeps_setField mine _ known.1) fun _ _ => .pure known.2
  | nilFrame slot =>
    exact keeps_done (.bind (Frame.keeps_set obeys.left slot.toNat canon.nil)
      fun frame stored => .pure (stored.append obeys.right))
  | nilInner slot =>
    exact keeps_done
      (keeps_storeInner obeys (Frame.looks_contextAt _ _).keeps slot canon.nil)
  | send literal arity => exact keeps_sendAttempt obeys offset literal arity
  | superSend literal arity => exact keeps_done (keeps_quickenSuperSend obeys offset literal)
  | quickSuperSend literal arity =>
    exact keeps_quickSuperSendAttempt obeys offset literal arity
  | returnNonLocal level => exact keeps_returnNonLocalAttempt obeys level
  | returnSelf =>
    exact keeps_done (.pure (.cons (Frame.holds_receiver obeys.left) obeys))
  | returnField field =>
    refine keeps_done (.bind (keeps_receiverInstance obeys 0) fun object _ => ?_)
    exact .bind (keeps_getField object _) fun _ known => .pure (.cons known obeys)
  | inc | dec =>
    exact keeps_done (.bind (keeps_incrementTop obeys _ _) fun _ known => .pure known)
  | incField field level =>
    exact keeps_done (.bind (keeps_incrementField obeys field level) fun _ _ =>
      .pure obeys)
  | incFieldPush field level =>
    exact keeps_done (keeps_pushNext obeys (keeps_incrementField obeys field level))
  | jump | jumpBackward =>
    exact keeps_done (.bind (looks_jumpTarget offset _).keeps fun _ _ => .pure obeys)
  | jumpOnTrueTopNil | jumpOnFalseTopNil | jumpOnTruePop | jumpOnFalsePop =>
    exact keeps_done (keeps_branch obeys offset _ _ _)
  | jumpIfGreater distance =>
    refine keeps_done (.bind (keeps_peek obeys 0) fun top _ => ?_)
    refine .bind (keeps_peek obeys 1) fun second _ => ?_
    refine .bind (keeps_orRaise _) fun order _ => ?_
    split
    · refine .bind (keeps_drop obeys 2) fun _ dropped => ?_
      exact .bind (looks_jumpTarget offset _).keeps fun _ _ => .pure dropped
    · exact .pure obeys
  | pushLocal | pushArgument | popLocal | popArgument | nilLocal =>
    exact keeps_done (keeps_resolveAccess obeys offset _)

theorem makes_begin {canons : Succession} (among : canons.among canon) (offset : Nat)
    (instruction : Instruction) :
    canons.Makes canon (fun later attempt => later.All attempt.values)
      (activation.begin offset instruction) := by
  by_cases makes : ∃ literal captures, instruction = .pushBlock literal captures
  · obtain ⟨literal, captures, rfl⟩ := makes
    have pushes : canons.Makes canon
        (fun later done => later.All (done.1.values ++ done.2.values)) (do
          return (Flow.next, ← activation.push (← activation.makeBlock literal captures))) :=
      (makes_makeBlock among literal captures).bind fun later _ grows block holds =>
        have held : later.All activation.values := fun value member =>
          grows value (obeys value member)
        .bind (keeps_push held holds) fun _ pushed => .pure pushed
    exact pushes.bind fun _ _ _ _ known => .pure known
  · exact (keeps_begin obeys offset fun literal captures same =>
      makes ⟨literal, captures, same⟩).makes among

theorem makes_beginThreaded {canons : Succession} (among : canons.among canon) (offset : Nat)
    (instruction : Instruction) :
    canons.Makes canon (fun later attempt => later.All attempt.values)
      (activation.beginThreaded offset instruction) := by
  cases instruction with
  | send literal arity => exact (keeps_sendInlinedAttempt obeys offset literal arity).makes among
  | _ =>
    unfold beginThreaded
    exact makes_begin obeys among offset _

end Activation

end ObjectMachine
