/-
This file takes the parts of the interpreter one by one: run from related machines, each
ends alike in related machines. The parts that work on the operand stack also say where
they leave its depth, under the condition that the values they need are there, or that
the simulation tolerates going past an end of the stack.
-/

import ObjectMachine.Proofs.Simulation

namespace ObjectMachine

namespace Simulation

variable {sim : Simulation}

/-! ### Texts and errors -/

theorem matches_symbolText (symbol : Symbol) :
    sim.Matches (Engine.symbolText symbol) (Engine.symbolText symbol) :=
  (follows_read _ fun _ => rfl).imp fun _ _ => trivial

theorem matches_newArray (values : Array Value) :
    sim.Matches (Engine.newArray values) (Engine.newArray values) :=
  .map (follows_allocate (.addArray values) (fun _ => rfl) (fun _ => rfl) fun _ _ => trivial)
    fun _ _ => trivial

theorem matches_printString (value : Value) :
    sim.Matches (Engine.printString value) (Engine.printString value) := by
  refine .bind (follows_read _ fun heap => Heap.printString?_withStates heap _ value) fun _ _ => ?_
  exact (follows_orEndless _).imp fun _ _ => trivial

theorem matches_displayString (value : Value) :
    sim.Matches (Engine.displayString value) (Engine.displayString value) := by
  refine .bind (follows_read _ fun heap => Heap.displayString?_withStates heap _ value)
    fun _ _ => ?_
  exact (follows_orEndless _).imp fun _ _ => trivial

theorem follows_badBytecode {α : Type} {post : α → Prop} (method : MethodId)
    (error : DecodeError) :
    sim.Follows post (Engine.badBytecode method error) (Engine.badBytecode method error) := by
  refine .bind (follows_read _ fun _ => rfl) fun code _ => ?_
  refine .bind (follows_read _ fun _ => rfl) fun signature _ => ?_
  refine .bind (follows_read _ fun heap => heap.listing?_observed method) fun listing? _ => ?_
  exact .bind (follows_orEndless _) fun listing _ => follows_raise _

/-- What is read at an offset stands there. -/
theorem follows_instructionAt (method : MethodId) (offset : Nat) :
    sim.Follows (fun found => sim.code.Stands method offset found.1 found.2)
      (Engine.instructionAt method offset) (Engine.instructionAt method offset) := by
  refine .bind (follows_read _ fun heap => heap.instructionAt_observed method offset)
    fun found ⟨machine, visited, read⟩ => ?_
  cases found with
  | ok found => exact .pure (visited.code ▸ visited.coherent.stands read)
  | error error => exact follows_badBytecode method error

theorem matches_patch {method : MethodId} {offset length : Nat} {encoded instruction : Instruction}
    (decoded : sim.code.encoded method offset = .ok (encoded, length))
    (resolved : sim.code.resolution? method encoded = some instruction) :
    sim.Matches (Engine.patch method offset instruction) (Engine.patch method offset instruction) :=
  follows_change (.patch method offset instruction) (fun _ => rfl) fun _ visited =>
    ⟨encoded, length, visited.code ▸ decoded, visited.code ▸ resolved⟩

theorem matches_migrateIfStale (value : Value) :
    sim.Matches (Engine.migrateIfStale value) (Engine.migrateIfStale value) := by
  cases value with
  | object object =>
    refine .bind (follows_read _ fun _ => rfl) fun stale _ => ?_
    split
    · refine follows_change? (.migrate object) (fun _ => rfl) (fun heap => ?_) fun _ _ => trivial
      rw [show heap.observed = heap.framed heap.observed from rfl, Heap.migrate?_framed]
      exact Option.isSome_map
    · exact .pure trivial
  | _ => exact .pure trivial

/-! ### Frames -/

theorem matches_frameStart (method : Method) (receiver : Value) :
    sim.Matches (Frame.start method receiver) (Frame.start method receiver) := by
  unfold Frame.start
  split
  · exact .pure trivial
  · have made : sim.Matches
        (Engine.allocate (·.addContext (.start method.innerSize receiver)))
        (Engine.allocate (·.addContext (.start method.innerSize receiver))) :=
      follows_allocate (.addContext (.start method.innerSize receiver)) (fun _ => rfl)
        (fun _ => rfl) fun _ _ => trivial
    have wrapped : sim.Matches
        (some <$> Engine.allocate (·.addContext (.start method.innerSize receiver)))
        (some <$> Engine.allocate (·.addContext (.start method.innerSize receiver))) :=
      made.map fun _ _ => trivial
    exact wrapped.bind fun context _ => .pure trivial

theorem matches_setContextSlot (context : ContextId) (slot : Nat) (value : Value) :
    sim.Matches (Engine.changeHeap (Frame.setContextSlot context slot value))
      (Engine.changeHeap (Frame.setContextSlot context slot value)) :=
  follows_change (.setContextSlot context slot value) (fun _ => rfl) fun _ _ => trivial

theorem matches_place (frame : Frame) (place : VariablePlace) (value : Value) :
    sim.Matches (frame.place place value) (frame.place place value) := by
  unfold Frame.place
  cases place with
  | frame slot => exact .pure trivial
  | inner slot =>
    cases frame.context with
    | none => exact .pure trivial
    | some context =>
      exact .bind (matches_setContextSlot context slot value) fun _ _ => .pure trivial

theorem matches_placeAll (frame : Frame) (places : List VariablePlace) (values : List Value) :
    sim.Matches (frame.placeAll places values) (frame.placeAll places values) := by
  induction places generalizing frame values with
  | nil => exact .pure trivial
  | cons place places inductionHypothesis =>
    cases values with
    | nil => exact .pure trivial
    | cons value values =>
      exact .bind (matches_place frame place value) fun frame _ => inductionHypothesis frame values

theorem matches_create (method : Method) (receiver : Value) (arguments : Arguments) :
    sim.Matches (Frame.create method receiver arguments)
      (Frame.create method receiver arguments) := by
  have placeOne (frame : Frame) (position : Nat) (value : Value) :
      sim.Matches
        (do frame.place (← Engine.orFault method.scope.own.arguments[position]?) value)
        (do frame.place (← Engine.orFault method.scope.own.arguments[position]?) value) :=
    .bind (follows_orFault _) fun place _ => matches_place frame place value
  unfold Frame.create
  cases arguments with
  | none => exact matches_frameStart method receiver
  | one first =>
    exact .bind (matches_frameStart method receiver) fun frame _ => placeOne frame 0 first
  | two first second =>
    refine .bind (matches_frameStart method receiver) fun frame _ => ?_
    refine .bind (follows_orFault _) fun place _ => ?_
    exact .bind (matches_place frame place first) fun frame _ => placeOne frame 1 second
  | many values =>
    exact .bind (matches_frameStart method receiver) fun frame _ => matches_placeAll frame _ values

theorem matches_frameGet (frame : Frame) (slot : Nat) :
    sim.Matches (frame.get slot) (frame.get slot) :=
  (follows_orFault _).imp fun _ _ => trivial

/-- Storing into a frame leaves its context as it is. -/
theorem follows_frameSet (frame : Frame) (slot : Nat) (value : Value) :
    sim.Follows (·.context = frame.context) (frame.set slot value) (frame.set slot value) := by
  unfold Frame.set
  split
  · exact .pure rfl
  · exact follows_indexFault

theorem matches_getInner (context : ContextId) (slot : Nat) :
    sim.Matches (Frame.getInner context slot) (Frame.getInner context slot) :=
  .bind (follows_read _ fun _ => rfl) fun _ _ => (follows_orFault _).imp fun _ _ => trivial

theorem matches_setInner (context : ContextId) (slot : Nat) (value : Value) :
    sim.Matches (Frame.setInner context slot value) (Frame.setInner context slot value) := by
  refine .bind (follows_read _ fun _ => rfl) fun size _ => ?_
  split
  · exact matches_setContextSlot context slot value
  · exact follows_indexFault

theorem matches_blockOutFrom (levels : Nat) (block : BlockId) :
    sim.Matches (Frame.blockOutFrom levels block) (Frame.blockOutFrom levels block) := by
  induction levels generalizing block with
  | zero => exact .pure trivial
  | succ levels inductionHypothesis =>
    refine .bind (follows_read _ fun _ => rfl) fun receiver _ => ?_
    match receiver with
    | none => exact follows_raise _
    | some (.block outer) => exact inductionHypothesis outer
    | some .nil | some (.bool _) | some (.integer _) | some (.bigInteger _) | some (.double _)
    | some (.symbol _) | some (.string _) | some (.array _) | some (.object _)
    | some (.classValue _) | some (.invokable _) => exact follows_raise _

theorem matches_blockAt (frame : Frame) (level : Nat) :
    sim.Matches (frame.blockAt level) (frame.blockAt level) := by
  unfold Frame.blockAt
  split
  · exact matches_blockOutFrom _ _
  · exact follows_raise _

theorem matches_contextAt (frame : Frame) (level : Nat) :
    sim.Matches (frame.contextAt level) (frame.contextAt level) := by
  unfold Frame.contextAt
  split
  · split
    · exact .pure trivial
    · exact follows_raise _
  · refine .bind (matches_blockAt frame level) fun block _ => ?_
    refine .bind (follows_read _ fun _ => rfl) fun context _ => ?_
    cases context with
    | some context => exact .pure trivial
    | none => exact follows_raise _

theorem matches_receiverAt (frame : Frame) (level : Nat) :
    sim.Matches (frame.receiverAt level) (frame.receiverAt level) := by
  unfold Frame.receiverAt
  split
  · exact .pure trivial
  · exact .bind (matches_contextAt frame level) fun context _ => matches_getInner context 0

theorem matches_homeReceiver (frame : Frame) :
    sim.Matches frame.homeReceiver frame.homeReceiver := by
  refine .bind (follows_read _ fun heap => ?_) fun _ _ =>
    (follows_orEndless _).imp fun _ _ => trivial
  exact Heap.homeReceiverFrom_withStates heap _ _ _

end Simulation

/-! ### Operand stacks -/

/--
A later state of an activation: the same method on the same context and a stack of the
same capacity, `popped` values having been taken off it and `pushed` put onto it.
-/
structure Activation.Moves (before : Activation) (popped pushed : Nat) (after : Activation) :
    Prop where
  method : after.method = before.method
  context : after.frame.context = before.frame.context
  capacity : after.stack.capacity = before.stack.capacity
  enough : popped ≤ before.stack.depth
  depth : after.stack.depth + popped = before.stack.depth + pushed

/-- After values have been taken off, more can be, and others put in their place. -/
theorem Activation.Moves.trans {first second third : Activation}
    {popped poppedNext pushed : Nat} (left : first.Moves popped 0 second)
    (right : second.Moves poppedNext pushed third) :
    first.Moves (popped + poppedNext) pushed third := by
  have before := left.depth
  have after := right.depth
  have enough := left.enough
  have enoughNext := right.enough
  exact ⟨right.method.trans left.method, right.context.trans left.context,
    right.capacity.trans left.capacity, by omega, by omega⟩

namespace OperandStack

variable {stack after : OperandStack}

theorem depth_le_capacity (stack : OperandStack) : stack.depth ≤ stack.capacity :=
  Nat.le_add_right _ _

theorem push?_spec {value : Value} (pushed : stack.push? value = some after) :
    after.capacity = stack.capacity ∧ after.depth = stack.depth + 1 := by
  refine ⟨capacity_of_push? pushed, ?_⟩
  unfold push? at pushed
  split at pushed <;> cases pushed
  rfl

theorem take?_spec {count : Nat} {values : List Value}
    (taken : stack.take? count = some (values, after)) :
    after.capacity = stack.capacity ∧ after.depth + count = stack.depth ∧
      values.length = count := by
  unfold take? at taken
  split at taken <;> cases taken
  simp only [capacity, depth, List.length_drop, List.length_reverse, List.length_take] at *
  omega

theorem pop?_spec {value : Value} (popped : stack.pop? = some (value, after)) :
    after.capacity = stack.capacity ∧ after.depth + 1 = stack.depth := by
  unfold pop? at popped
  split at popped
  · cases popped
  · rename_i values
    cases popped
    have depths := congrArg List.length values
    simp only [List.length_cons] at depths
    simp only [capacity, depth]
    omega

theorem setTop?_spec {value : Value} (set : stack.setTop? value = some after) :
    after.capacity = stack.capacity ∧ 0 < stack.depth ∧ after.depth = stack.depth := by
  unfold setTop? at set
  split at set
  · cases set
  · rename_i values
    cases set
    have depths := congrArg List.length values
    simp only [List.length_cons] at depths
    simp only [capacity, depth, List.length_cons]
    omega

theorem pop?_isSome (nonempty : 0 < stack.depth) : stack.pop?.isSome := by
  unfold pop?
  split
  · simp_all [depth]
  · rfl

theorem setTop?_isSome (nonempty : 0 < stack.depth) (value : Value) :
    (stack.setTop? value).isSome := by
  unfold setTop?
  split
  · simp_all [depth]
  · rfl

theorem peek?_isSome {below : Nat} (deep : below < stack.depth) : (stack.peek? below).isSome := by
  rw [peek?, List.getElem?_eq_getElem deep]
  rfl

theorem take?_isSome {count : Nat} (deep : count ≤ stack.depth) : (stack.take? count).isSome := by
  rw [take?, if_pos deep]
  rfl

end OperandStack

namespace Simulation

variable {sim : Simulation}

/-- A condition holds, or the simulation tolerates going past an end of the stack. -/
def Admits (sim : Simulation) (method : MethodId) (fits : Prop) : Prop :=
  fits ∨ sim.tolerates (.stackFault method)

theorem Admits.imp {method : MethodId} {fits others : Prop} (admits : sim.Admits method fits)
    (implies : fits → others) : sim.Admits method others :=
  Or.imp_left implies admits

theorem follows_orStackFault {α : Type} {activation : Activation} {found : Option α}
    (admits : sim.Admits activation.method found.isSome) :
    sim.Follows (found = some ·) (activation.orStackFault found)
      (activation.orStackFault found) := by
  cases found with
  | some value => exact .pure rfl
  | none => exact follows_throw (admits.resolve_left (by simp))

section

variable {activation : Activation}

theorem follows_push {value : Value} (admits : sim.Admits activation.method
    (activation.stack.depth < activation.stack.capacity)) :
    sim.Follows (activation.Moves 0 1) (activation.push value) (activation.push value) := by
  refine .bind (follows_orStackFault (admits.imp
    (OperandStack.push?_isSome_iff activation.stack value).mpr)) fun stack pushed => ?_
  obtain ⟨capacity, depth⟩ := OperandStack.push?_spec pushed
  exact .pure ⟨rfl, rfl, capacity, Nat.zero_le _, depth⟩

theorem follows_pop (admits : sim.Admits activation.method (0 < activation.stack.depth)) :
    sim.Follows (fun popped => activation.Moves 1 0 popped.2) activation.pop activation.pop := by
  refine .bind (follows_orStackFault (admits.imp OperandStack.pop?_isSome))
    fun ⟨value, stack⟩ popped => ?_
  obtain ⟨capacity, depth⟩ := OperandStack.pop?_spec popped
  exact .pure ⟨rfl, rfl, capacity, depth ▸ Nat.le_add_left _ _, depth⟩

theorem matches_peek {below : Nat}
    (admits : sim.Admits activation.method (below < activation.stack.depth)) :
    sim.Matches (activation.peek below) (activation.peek below) :=
  (follows_orStackFault (admits.imp OperandStack.peek?_isSome)).imp fun _ _ => trivial

theorem follows_setTop {value : Value}
    (admits : sim.Admits activation.method (0 < activation.stack.depth)) :
    sim.Follows (activation.Moves 1 1) (activation.setTop value) (activation.setTop value) := by
  refine .bind (follows_orStackFault
    (admits.imp fun deep => OperandStack.setTop?_isSome deep value)) fun stack set => ?_
  obtain ⟨capacity, nonempty, depth⟩ := OperandStack.setTop?_spec set
  exact .pure ⟨rfl, rfl, capacity, nonempty, congrArg (· + 1) depth⟩

theorem follows_take {count : Nat}
    (admits : sim.Admits activation.method (count ≤ activation.stack.depth)) :
    sim.Follows (fun taken => activation.Moves count 0 taken.2 ∧ taken.1.length = count)
      (activation.take count) (activation.take count) := by
  refine .bind (follows_orStackFault (admits.imp OperandStack.take?_isSome))
    fun ⟨values, stack⟩ taken => ?_
  obtain ⟨capacity, depth, length⟩ := OperandStack.take?_spec taken
  exact .pure ⟨⟨rfl, rfl, capacity, depth ▸ Nat.le_add_left _ _, depth⟩, length⟩

theorem follows_drop {count : Nat}
    (admits : sim.Admits activation.method (count ≤ activation.stack.depth)) :
    sim.Follows (activation.Moves count 0) (activation.drop count) (activation.drop count) := by
  refine .bind (follows_orStackFault (admits.imp fun deep => ?_)) fun stack dropped => ?_
  · rw [OperandStack.drop?, Option.isSome_map]
    exact OperandStack.take?_isSome deep
  · obtain ⟨⟨values, stack⟩, taken, rfl⟩ := Option.map_eq_some_iff.mp dropped
    obtain ⟨capacity, depth, -⟩ := OperandStack.take?_spec taken
    exact .pure ⟨rfl, rfl, capacity, depth ▸ Nat.le_add_left _ _, depth⟩

/-! ### Literals and receivers -/

theorem follows_literal? (index : UInt8) :
    sim.Follows (sim.code.literal? activation.method index = ·) (activation.literal? index)
      (activation.literal? index) :=
  follows_code fun code => code.literal? activation.method index

theorem follows_literal (offset : Nat) (index : UInt8) :
    sim.Follows (fun value => sim.code.literal? activation.method index = some value)
      (activation.literal offset index) (activation.literal offset index) := by
  refine .bind (follows_literal? index) fun found same => ?_
  cases found with
  | some value => exact .pure same
  | none => exact follows_badBytecode _ _

theorem matches_receiverInstance (level : UInt8) :
    sim.Matches (activation.receiverInstance level) (activation.receiverInstance level) := by
  refine .bind (matches_receiverAt activation.frame level.toNat) fun receiver _ => ?_
  cases receiver with
  | object object => exact .pure trivial
  | _ => exact follows_raise _

theorem matches_getField (object : InstanceId) (field : Nat) :
    sim.Matches (Engine.getField object field) (Engine.getField object field) :=
  .bind (follows_read _ fun _ => rfl) fun _ _ => (follows_orFault _).imp fun _ _ => trivial

theorem matches_setField (object : InstanceId) (field : Nat) (value : Value) :
    sim.Matches (Engine.setField object field value) (Engine.setField object field value) := by
  refine follows_change? (.setField object field value) (fun _ => rfl) (fun heap => ?_)
    fun _ _ => trivial
  rw [show heap.observed = heap.framed heap.observed from rfl, Heap.setField?_framed]
  exact Option.isSome_map

end

/-! ### Messages without a call site -/

section

variable {first second : Caller} (calls : sim.Calls first second)

include calls

theorem matches_doesNotUnderstand (receiver : Value) (cls : ClassId) (selector : Symbol)
    (arguments : List Value) :
    sim.Matches (Engine.doesNotUnderstand first receiver cls selector arguments)
      (Engine.doesNotUnderstand second receiver cls selector arguments) := by
  refine follows_get fun x y related => ?_
  rw [(sim.alike related).selectors]
  refine Follows.bind (follows_read _ fun heap => heap.lookup?_withStates _ cls _)
    (fun handler _ => ?_) x y related
  cases handler with
  | none => exact .bind (matches_symbolText selector) fun _ _ => follows_raise _
  | some handler =>
    exact .bind (matches_newArray arguments.toArray) fun array _ => calls handler receiver _

theorem matches_sendMessage (receiver : Value) (selector : Symbol) (arguments : List Value) :
    sim.Matches (Engine.sendMessage first receiver selector arguments)
      (Engine.sendMessage second receiver selector arguments) := by
  refine .bind (matches_migrateIfStale receiver) fun _ _ => ?_
  refine .bind (follows_read _ fun _ => by cases receiver <;> rfl) fun cls _ => ?_
  refine .bind (follows_read _ fun heap => heap.lookup?_withStates _ cls _) fun target _ => ?_
  cases target with
  | some target => exact calls target receiver _
  | none => exact matches_doesNotUnderstand calls receiver cls selector arguments

end

/-! ### Sends at a call site -/

theorem Admits.after {before after : Activation} {popped pushed : Nat} {fits others : Prop}
    (admits : sim.Admits before.method fits) (moves : before.Moves popped pushed after)
    (implies : fits → others) : sim.Admits after.method others := by
  rw [moves.method]
  exact admits.imp implies

section

variable {first second : Caller} (calls : sim.Calls first second) {activation : Activation}
  {offset length : Nat} {literal : UInt8} {arity : Arity} {selector : Symbol}

theorem follows_selector (literal : UInt8) :
    sim.Follows (fun selector =>
        sim.code.literal? activation.method literal = some (.symbol selector))
      (activation.selector literal) (activation.selector literal) := by
  refine .bind (follows_literal? literal) fun found same => ?_
  subst same
  refine (follows_orRaise _).imp fun selector named => ?_
  unfold Activation.selector? at named
  split at named
  · rename_i found
    cases named
    exact found
  · cases named
  · cases named

/-- The number of values of a send is the one that the analysis goes by. -/
theorem follows_valueCount
    (named : sim.code.literal? activation.method literal = some (.symbol selector)) :
    sim.Follows (fun count => count =
        Instruction.valueCount (sim.code.arityOf activation.method) literal arity ∧ 0 < count)
      (Activation.valueCount selector arity) (Activation.valueCount selector arity) := by
  unfold Activation.valueCount Instruction.valueCount
  cases arity with
  | ofSelector =>
    refine (follows_code (·.symbols.arity selector)).imp fun count same => ?_
    subst same
    exact ⟨(Code.arityOf_symbol named).symm, selectorArity_pos _⟩
  | _ => exact .pure ⟨rfl, by decide⟩

theorem matches_hasStaleReceiver (count : Nat) :
    sim.Matches (activation.hasStaleReceiver count) (activation.hasStaleReceiver count) := by
  unfold Activation.hasStaleReceiver
  split
  · exact .pure trivial
  · split
    · rename_i receiver _
      exact (follows_read _ fun _ => by cases receiver <;> rfl).imp fun _ _ => trivial
    · exact .pure trivial

theorem matches_meetsStaleReceiver :
    sim.Matches (activation.meetsStaleReceiver literal arity)
      (activation.meetsStaleReceiver literal arity) := by
  unfold Activation.meetsStaleReceiver
  cases arity with
  | ofSelector =>
    refine .bind (follows_literal? literal) fun found _ => ?_
    cases found with
    | none => exact @matches_hasStaleReceiver sim activation 0
    | some value =>
      cases value with
      | symbol selector =>
        exact .bind (follows_code (·.symbols.arity selector))
          fun count _ => matches_hasStaleReceiver count
      | _ => exact @matches_hasStaleReceiver sim activation 0
  | one => exact matches_hasStaleReceiver 1
  | two => exact matches_hasStaleReceiver 2
  | three => exact matches_hasStaleReceiver 3

theorem matches_stopsBefore (instruction : Instruction) :
    sim.Matches (activation.stopsBefore instruction) (activation.stopsBefore instruction) := by
  cases instruction with
  | send literal arity => exact matches_meetsStaleReceiver
  | _ => exact .pure trivial

include calls

theorem follows_callFromStack (target : Invokable) {count : Nat} (positive : 0 < count)
    (admits : sim.Admits activation.method (count ≤ activation.stack.depth)) :
    sim.Follows (fun answered => activation.Moves count 0 answered.2)
      (activation.callFromStack first target count)
      (activation.callFromStack second target count) := by
  unfold Activation.callFromStack
  match count with
  | 0 => cases positive
  | 1 =>
    refine .bind (follows_pop admits) fun ⟨receiver, after⟩ moves => ?_
    exact .bind (calls target receiver .none) fun answer _ => .pure moves
  | 2 =>
    refine .bind (follows_pop (admits.imp (by omega))) fun ⟨argument, between⟩ moves => ?_
    have taken : between.stack.depth + 1 = activation.stack.depth + 0 := moves.depth
    refine .bind (follows_pop (admits.after moves (by omega))) fun ⟨receiver, after⟩ again => ?_
    exact .bind (calls target receiver _) fun answer _ => .pure (moves.trans again)
  | 3 =>
    refine .bind (follows_pop (admits.imp (by omega))) fun ⟨argument, between⟩ moves => ?_
    have taken : between.stack.depth + 1 = activation.stack.depth + 0 := moves.depth
    refine .bind (follows_pop (admits.after moves (by omega))) fun ⟨earlier, next⟩ again => ?_
    have takenAgain : next.stack.depth + 1 = between.stack.depth + 0 := again.depth
    have both : activation.Moves 2 0 next := moves.trans again
    refine .bind (follows_pop (admits.after both (by omega))) fun ⟨receiver, after⟩ last => ?_
    exact .bind (calls target receiver _) fun answer _ => .pure (both.trans last)
  | count + 4 =>
    refine .bind (follows_take (admits.imp (by omega))) fun ⟨arguments, between⟩ ⟨moves, _⟩ => ?_
    have taken : between.stack.depth + (count + 3) = activation.stack.depth + 0 := moves.depth
    refine .bind (follows_pop (admits.after moves (by omega))) fun ⟨receiver, after⟩ last => ?_
    exact .bind (calls target receiver _) fun answer _ => .pure (moves.trans last)

theorem follows_notUnderstoodFromStack (cls : ClassId) (selector : Symbol) {count : Nat}
    (positive : 0 < count)
    (admits : sim.Admits activation.method (count ≤ activation.stack.depth)) :
    sim.Follows (fun answered => activation.Moves count 0 answered.2)
      (activation.notUnderstoodFromStack first cls selector count)
      (activation.notUnderstoodFromStack second cls selector count) := by
  obtain ⟨rest, rfl⟩ : ∃ rest, count = rest + 1 := ⟨count - 1, by omega⟩
  refine .bind (follows_take (admits.imp (by omega))) fun ⟨arguments, between⟩ ⟨moves, _⟩ => ?_
  have taken : between.stack.depth + rest = activation.stack.depth + 0 := moves.depth
  refine .bind (follows_pop (admits.after moves (by omega))) fun ⟨receiver, after⟩ last => ?_
  exact .bind (matches_doesNotUnderstand calls receiver cls selector arguments)
    fun answer _ => .pure (moves.trans last)

/-- A send takes its values off the stack and leaves the answer. -/
theorem follows_completeSend (found : Option Invokable) (cls : ClassId) (selector : Symbol)
    {count : Nat} (positive : 0 < count)
    (admits : sim.Admits activation.method (count ≤ activation.stack.depth)) :
    sim.Follows (fun sent => sent.1 = .next ∧ activation.Moves count 1 sent.2)
      (activation.completeSend first found cls selector count)
      (activation.completeSend second found cls selector count) := by
  have finish (answered : Value × Activation) (moves : activation.Moves count 0 answered.2) :
      sim.Follows (fun sent => sent.1 = .next ∧ activation.Moves count 1 sent.2)
        (do return (Flow.next, ← answered.2.push answered.1))
        (do return (Flow.next, ← answered.2.push answered.1)) := by
    have depth := moves.depth
    have capacity := moves.capacity
    have bound := activation.stack.depth_le_capacity
    refine .bind (follows_push (admits.after moves (by omega))) fun after pushed => ?_
    exact .pure ⟨rfl, by simpa using moves.trans pushed⟩
  unfold Activation.completeSend
  cases found with
  | some target => exact .bind (follows_callFromStack calls target positive admits) finish
  | none =>
    exact .bind (follows_notUnderstoodFromStack calls cls selector positive admits) finish

omit calls

/-- A lookup through a cache, at a site and under a shape for which it is allowed. -/
theorem joint_lookupAtSite {x y : Machine} (related : sim.related x y) {cls : ClassId}
    {shape : ShapeId} (sends : sim.code.Sends activation.method offset selector)
    (lays : x.heap.Lays cls shape) :
    sim.Joint (fun _ => True) (activation.lookupAtSite offset cls shape selector x)
      (activation.lookupAtSite offset cls shape selector y) := by
  have same := (sim.alike related).read
    (fun heap => heap.lookupCached cls shape selector (heap.site activation.method offset).cache)
    fun heap => by
      rw [Heap.site_observed]
      exact Heap.lookupCached_withStates heap _ cls shape selector _
  have allowed : (Change.lookup activation.method offset cls shape selector).Allowed x.heap :=
    ⟨(sim.alike related).code ▸ sends, lays⟩
  show sim.Joint _
    (.ok (x.heap.lookupCached cls shape selector (x.heap.site activation.method offset).cache).1
      (x.change (.lookup activation.method offset cls shape selector)))
    (.ok (y.heap.lookupCached cls shape selector (y.heap.site activation.method offset).cache).1
      (y.change (.lookup activation.method offset cls shape selector)))
  rw [← same]
  exact .ok (sim.change related allowed) trivial

include calls

/-- What a send at a call site does to the activation: it answers, or it is to be tried again. -/
theorem follows_send
    (stands : sim.code.Stands activation.method offset (.send literal arity) length)
    (admits : sim.Admits activation.method
      (Instruction.valueCount (sim.code.arityOf activation.method) literal arity ≤
        activation.stack.depth)) :
    sim.Follows (fun sent =>
        sent.1 = .next ∧ activation.Moves
          (Instruction.valueCount (sim.code.arityOf activation.method) literal arity) 1 sent.2 ∨
        sent = (.retry, activation))
      (activation.send first offset literal arity)
      (activation.send second offset literal arity) := by
  refine .bind (follows_selector literal) fun selector named => ?_
  refine .bind (follows_valueCount named) fun count ⟨same, positive⟩ => ?_
  subst same
  refine .bind (matches_peek (admits.imp (by omega))) fun receiver _ => ?_
  intro x y related
  refine joint_read (fun _ => by cases receiver <;> rfl) related ?_
  by_cases superseded : x.heap.isStaleValue receiver
  · -- The receiver adopts the layout of its class, the site drops what it knew of old shapes.
    simp only [superseded, if_true]
    have migrated : sim.Follows (· = (Flow.retry, activation))
        (do
          Engine.changeHeap fun heap =>
            heap.modifySite activation.method offset fun site =>
              { site with cache := site.cache.dropStale heap.shapes }
          return (.retry, activation))
        (do
          Engine.changeHeap fun heap =>
            heap.modifySite activation.method offset fun site =>
              { site with cache := site.cache.dropStale heap.shapes }
          return (.retry, activation)) :=
      .bind (follows_change (.dropStale activation.method offset) (fun _ => rfl)
        fun _ _ => trivial) fun _ _ => .pure rfl
    exact ((matches_migrateIfStale receiver).bind fun _ _ =>
      migrated.imp fun sent same => .inr same) x y related
  · -- The class is recorded first, which takes no shape away.
    have current : x.heap.isStaleValue receiver = false := by simpa using superseded
    simp only [current, Bool.false_eq_true, if_false]
    refine joint_read (fun _ => by cases receiver <;> rfl) related ?_
    have plainly : sim.code.SendsPlainly activation.method offset :=
      ⟨literal, arity, length, selector, stands.of_send, named⟩
    rw [← (sim.alike related).code] at plainly
    refine joint_change (.receive activation.method offset (x.heap.classOf receiver))
      (fun _ => rfl) related plainly fun relatedNow => ?_
    refine joint_read (fun _ => by cases receiver <;> rfl) relatedNow ?_
    have lays : (x.change (.receive activation.method offset (x.heap.classOf receiver))).heap.Lays
        (x.heap.classOf receiver) (x.heap.shapeFor receiver (x.heap.classOf receiver)) :=
      Heap.lays_shapeFor current
    refine (joint_lookupAtSite relatedNow (stands.sends_of_send named) ?_).bind
      fun found _ _ _ _ relatedThen _ => ?_
    · cases receiver <;> exact lays
    · exact ((follows_completeSend calls found _ selector positive admits).imp
        fun sent answered => .inl answered) _ _ relatedThen

/-- A quick super send always answers. -/
theorem follows_quickSuperSend
    (stands : sim.code.Stands activation.method offset (.quickSuperSend literal arity) length)
    (admits : sim.Admits activation.method
      (Instruction.valueCount (sim.code.arityOf activation.method) literal arity ≤
        activation.stack.depth)) :
    sim.Follows (fun sent => sent.1 = .next ∧ activation.Moves
        (Instruction.valueCount (sim.code.arityOf activation.method) literal arity) 1 sent.2)
      (activation.quickSuperSend first offset literal arity)
      (activation.quickSuperSend second offset literal arity) := by
  refine .bind (follows_selector literal) fun selector named => ?_
  refine .bind (follows_valueCount named) fun count ⟨same, positive⟩ => ?_
  subst same
  refine .bind (follows_read _ fun heap => heap.holder?_observed (.method activation.method))
    fun holder? _ => ?_
  cases holder? with
  | none => exact follows_raise _
  | some holder =>
    refine .bind (follows_read _ fun _ => rfl) fun superclass? _ => ?_
    cases superclass? with
    | none => exact follows_completeSend calls none holder selector positive admits
    | some superclass =>
      intro x y related
      refine joint_read (fun _ => rfl) related ?_
      refine (joint_lookupAtSite related (stands.sends_of_quickSuperSend named) (.inl rfl)).bind
        fun found _ _ _ _ relatedThen _ => ?_
      exact follows_completeSend calls found superclass selector positive admits _ _ relatedThen

end

end Simulation

end ObjectMachine
