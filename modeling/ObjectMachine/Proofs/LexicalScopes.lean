/-
This file says what code a family of methods and the methods of their blocks may have, so that
the chronicle can be trusted: how their variables are placed, which scope is nested in which,
and that no receiver is replaced. These are rules about the code as it is encoded, before
anything is resolved. From them follow the rules for deeds, because the slots that variables
are resolved to are never those of a receiver; and so slots follow the chronicle in every
state of a program that hosts and runs of code may come to.
-/

import ObjectMachine.Proofs.Chronicle
import ObjectMachine.Proofs.VariableAccess

namespace ObjectMachine

/-! ### Rules -/

/-- A level that is made by placing variables, with no more slots than an operand can tell. -/
structure ScopeLevel.Placed (level : ScopeLevel) : Prop where
  made : ∃ arguments locals needsContext, level = of arguments locals needsContext
  frameSize : level.frameSize ≤ 256
  innerSize : level.innerSize ≤ 256

theorem ScopeLevel.Placed.addressable {level : ScopeLevel} (placed : level.Placed) :
    level.Addressable := by
  obtain ⟨⟨arguments, locals, needsContext, rfl⟩, frameSize, innerSize⟩ := placed
  exact ⟨settled_of _ _ _, frameSize, innerSize⟩

/-- An operand tells the slot of every variable, which is not that of a receiver. -/
theorem ScopeLevel.Addressable.slot {level : ScopeLevel} (addressable : level.Addressable)
    {kind : VariableKind} {index : Nat} {place : VariablePlace}
    (placed : level.placeOf? kind index = some place) :
    (UInt8.ofNat place.slot).toNat = place.slot ∧ 0 < place.slot := by
  obtain ⟨settled, frameSize, innerSize⟩ := addressable
  rw [UInt8.toNat_ofNat']
  cases place with
  | frame slot =>
    obtain ⟨positive, within⟩ := settled.frame placed
    exact ⟨Nat.mod_eq_of_lt (Nat.lt_of_lt_of_le within frameSize), positive⟩
  | inner slot =>
    obtain ⟨positive, within⟩ := settled.inner placed
    exact ⟨Nat.mod_eq_of_lt (Nat.lt_of_lt_of_le within innerSize), positive⟩

theorem ScopeLevel.Addressable.slot_ne_zero {level : ScopeLevel} (addressable : level.Addressable)
    {kind : VariableKind} {index : Nat} {place : VariablePlace}
    (placed : level.placeOf? kind index = some place) : UInt8.ofNat place.slot ≠ 0 := by
  obtain ⟨same, positive⟩ := addressable.slot placed
  intro zero
  rw [zero] at same
  exact Nat.ne_of_lt positive same

/-- An instruction stores where an activation has its receiver. -/
def Instruction.replacesReceiver : Instruction → Bool
  | .popArgument index _ => index == 0
  | .popFrame slot | .nilFrame slot | .nilInner slot | .popInner slot _ => slot == 0
  | _ => false

/-- An access that stores and replaces no receiver is one to another variable. -/
theorem Instruction.not_receiver {instruction : Instruction} {access : Access}
    (kept : instruction.replacesReceiver = false) (accesses : instruction.access? = some access)
    (stores : access.usage ≠ .push) : access.kind = .argument → access.index ≠ 0 := by
  intro argument zero
  cases instruction with
  | popArgument index level =>
    cases accesses
    exact Bool.false_ne_true (kept.symm.trans (beq_iff_eq.mpr zero))
  | pushArgument index level =>
    cases accesses
    exact stores rfl
  | _ => cases accesses <;> cases argument

/--
The rules for a family of methods and the methods of their blocks. Their levels are made by
placing variables, with at most so many slots as an operand can tell. Where a block of the
family is made that is to hold a context, a method of the family makes it, and the scope of
the block is nested in that method's. No method of the family replaces a receiver, and no
other method replaces one that is further out, where a block of the family may have led to.
-/
structure Code.Lexical (family : MethodId → Prop) (code : Code) : Prop where
  levels : ∀ method, family method → code.methods.Has method →
    ∀ level ∈ (code.methods.get method).scope.own :: (code.methods.get method).scope.outer,
      level.Placed
  blocks : ∀ method offset literal length block,
    code.encoded method offset = .ok (.pushBlock literal true, length) →
    code.literal? method literal = some (.invokable (.method block)) → family block →
      code.methods.Has block ∧ family method ∧
        (code.methods.get block).scope =
          (code.methods.get method).scope.nested (code.methods.get block).scope.own
  receivers : ∀ method offset instruction length, family method →
    code.encoded method offset = .ok (instruction, length) → instruction.replacesReceiver = false
  strangers : ∀ method offset level length, ¬ family method →
    code.Stands method offset (.popInner 0 level) length → level = 0

namespace Code

variable {family : MethodId → Prop} {code : Code} {method : MethodId} {offset length : Nat}
  {instruction : Instruction}

theorem Lexical.placed (lexical : code.Lexical family) (member : family method)
    (found : code.encoded method offset = .ok (instruction, length)) {level : Nat}
    {declaring : ScopeLevel}
    (declares : (code.methods.get method).scope.level? level = some declaring) :
    declaring.Placed :=
  lexical.levels method member (has_of_encoded found) declaring (List.mem_of_getElem? declares)

/-- The slot that an instruction stores into. -/
def slotOf? : Instruction → Option UInt8
  | .popFrame slot | .nilFrame slot | .nilInner slot | .popInner slot _ => some slot
  | _ => none

/-- Only an access has a resolution that stores. -/
theorem access_of_resolution? {encoded : Instruction} {slot : UInt8}
    (resolved : code.resolution? method encoded = some instruction)
    (stores : slotOf? instruction = some slot) :
    ∃ access, encoded.access? = some access ∧
      Activation.resolvedAccess? (code.methods.get method).scope encoded = some instruction := by
  rcases resolution?_cases resolved with ⟨literal, arity, selector, rfl, -, rfl⟩ |
    ⟨access, resolved⟩
  · cases stores
  · rw [Instruction.isUnresolvedAccess_eq] at access
    exact ⟨_, Option.eq_some_of_isSome access, resolved⟩

/-- A resolved store goes to the slot of a variable. -/
theorem slot_of_reached {place : VariablePlace} {level slot : UInt8} {usage : Usage}
    {reached : VariableAccess} (found : place.from? level = some reached)
    (reaches : Access.reach? usage reached = some instruction)
    (stores : slotOf? instruction = some slot) :
    usage ≠ .push ∧ slot = UInt8.ofNat place.slot := by
  cases place with
  | frame own =>
    rw [VariablePlace.from?] at found
    split at found <;> cases found
    cases usage <;> cases reaches <;> cases stores <;> exact ⟨by decide, rfl⟩
  | inner own =>
    rw [VariablePlace.from?] at found
    split at found <;> cases found <;> cases usage <;> cases reaches <;> cases stores <;>
      exact ⟨by decide, rfl⟩

/-- No instruction that may run in the family stores into the slot of a receiver. -/
theorem Lexical.slot_ne_zero (lexical : code.Lexical family) (member : family method)
    (stands : code.Stands method offset instruction length) {slot : UInt8}
    (stores : slotOf? instruction = some slot) : slot ≠ 0 := by
  cases stands with
  | encoded found =>
    have kept := lexical.receivers method offset instruction length member found
    rintro rfl
    cases instruction <;> cases stores <;> cases kept
  | resolved encoded found resolved =>
    have kept := lexical.receivers method offset encoded length member found
    obtain ⟨access, accesses, resolved⟩ := access_of_resolution? resolved stores
    rw [Activation.resolvedAccess?_eq _ accesses, Scope.resolve?_eq] at resolved
    obtain ⟨reached, reach, reaches⟩ := Option.bind_eq_some_iff.mp resolved
    obtain ⟨place, placed, reach⟩ := Option.bind_eq_some_iff.mp reach
    obtain ⟨pops, rfl⟩ := slot_of_reached reach reaches stores
    rw [Scope.placeOf?_eq _ _ (Instruction.not_receiver kept accesses pops)] at placed
    obtain ⟨declaring, declares, placed⟩ := Option.bind_eq_some_iff.mp placed
    exact (lexical.placed member found declares).addressable.slot_ne_zero placed

theorem Stands.of_pushBlock {literal : UInt8} {captures : Bool}
    (stands : code.Stands method offset (.pushBlock literal captures) length) :
    code.encoded method offset = .ok (.pushBlock literal captures, length) := by
  cases stands with
  | encoded found => exact found
  | resolved encoded found resolved =>
    rcases resolution?_cases resolved with ⟨_, _, _, _, _, same⟩ | ⟨access, resolved⟩
    · cases same
    · rw [Instruction.isUnresolvedAccess_eq] at access
      rw [Activation.resolvedAccess?_eq _ (Option.eq_some_of_isSome access)] at resolved
      obtain ⟨reached, -, reaches⟩ := Option.bind_eq_some_iff.mp resolved
      revert reaches
      cases (encoded.access?.get access).usage <;> cases reached <;> intro same <;> cases same

end Code

/-! ### Deeds by the rules -/

namespace Activation

variable {activation : Activation} {machine : Machine} {instruction : Instruction}

theorem storesFrame {slot : Nat} {value : Value}
    (does : activation.deed machine instruction = .storeFrame slot value) :
    ∃ operand, Code.slotOf? instruction = some operand ∧ slot = operand.toNat := by
  have orders := activation.orders_deed machine instruction
  rw [does] at orders
  cases orders with
  | popFrame operand | nilFrame operand => exact ⟨operand, rfl, rfl⟩

theorem storesContext {context : ContextId} {slot : Nat} {value : Value}
    (does : activation.deed machine instruction = .storeContext context slot value) :
    ∃ operand, Code.slotOf? instruction = some operand ∧ slot = operand.toNat ∧
      (activation.frame.context = some context ∨
        ∃ level, level ≠ 0 ∧ instruction = .popInner operand level) := by
  have orders := activation.orders_deed machine instruction
  rw [does] at orders
  cases orders with
  | popInner operand level _ found =>
    refine ⟨operand, rfl, rfl, ?_⟩
    by_cases own : level = 0
    · subst own
      exact .inl (Frame.contextAt_zero_iff.mp found).1
    · exact .inr ⟨level, own, rfl⟩
  | nilInner operand found =>
    exact ⟨operand, rfl, rfl, .inl (Frame.contextAt_zero_iff.mp found).1⟩

end Activation

/-- Where something is done, an instruction stands that does it. -/
theorem State.stands_of_deed {state : State} (coherent : state.machine.heap.Coherent)
    (does : state.deed ≠ .nothing) :
    ∃ (live : Live) (instruction : Instruction) (length : Nat),
      state.homes.head? = some live.home ∧
      state.machine.heap.code.Stands live.activation.method live.offset instruction length ∧
      live.activation.deed state.machine instruction = state.deed := by
  unfold deed at does ⊢
  split at does
  · rename_i leg live turns
    unfold Leg.deed at does ⊢
    split at does
    · rename_i node after fetched
      obtain ⟨length, -, stands⟩ := (Leg.holds_of_fetch coherent fetched).stands coherent
      refine ⟨live, node.instruction, length, ?_, stands, rfl⟩
      rw [homes_of_turn turns, List.head?_cons]
    · exact (does rfl).elim
  · exact (does rfl).elim

/-- Lexical code obeys the rules in whatever it does. -/
theorem Code.Lexical.obeys {family : MethodId → Prop} {chronicle : Chronicle} {state : State}
    (lexical : state.machine.heap.code.Lexical family) (coherent : state.machine.heap.Coherent)
    (follows : chronicle.Follows family state.scene state.homes) :
    chronicle.Obeys family state where
  levels method member := by
    by_cases has : state.scene.methods.Has method
    · exact (lexical.levels method member has _ List.mem_cons_self).addressable
    · rw [Table.get_of_not_has _ _ has]
      exact ScopeLevel.addressable_default
  blocks block context makes member captured := by
    obtain ⟨live, instruction, length, innermost, stands, does⟩ :=
      State.stands_of_deed coherent (by rw [makes]; exact fun same => by cases same)
    obtain ⟨literal, captures, rfl, found, holds⟩ := Activation.makesBlock (does.trans makes)
    obtain rfl : captures = true := by
      cases captures with
      | true => rfl
      | false => cases captured.symm.trans holds
    obtain ⟨has, family, scope⟩ := lexical.blocks live.activation.method live.offset literal length
      block.method stands.of_pushBlock found member
    refine ⟨has, fun home head => ?_⟩
    obtain rfl : live.home = home := Option.some.inj (innermost.symm.trans head)
    exact ⟨family, scope⟩
  frames slot value stores home head member := by
    obtain ⟨live, instruction, length, innermost, stands, does⟩ :=
      State.stands_of_deed coherent (by rw [stores]; exact fun same => by cases same)
    obtain ⟨operand, slotted, rfl⟩ := Activation.storesFrame (does.trans stores)
    obtain rfl : live.home = home := Option.some.inj (innermost.symm.trans head)
    exact fun zero => lexical.slot_ne_zero member stands slotted (UInt8.toNat_inj.mp zero)
  contexts context slot value stores serial anchored member := by
    obtain ⟨live, instruction, length, innermost, stands, does⟩ :=
      State.stands_of_deed coherent (by rw [stores]; exact fun same => by cases same)
    obtain ⟨operand, slotted, rfl, reached⟩ := Activation.storesContext (does.trans stores)
    intro zero
    have zero : operand = 0 := UInt8.toNat_inj.mp zero
    by_cases family : family live.activation.method
    · exact lexical.slot_ne_zero family stands slotted zero
    · rcases reached with own | ⟨level, outer, rfl⟩
      · -- The own context is that of the innermost activation, which is not of the family.
        obtain ⟨inner, -, lives⟩ := follows.accounts.head innermost
        have here : (chronicle.chapter inner).context = some context :=
          lives.context.trans (lives.framed.symm.trans own)
        rw [follows.apart anchored here, lives.method] at member
        exact family member
      · exact outer (lexical.strangers _ _ _ _ family (zero ▸ stands))

/-! ### Runs -/

/--
The states of a program with their chronicles: a host makes machines without code and blocks,
changes between two runs what it may, but no blocks, contexts and numbers of sites, and calls;
all code that runs is lexical.
-/
inductive Chronicled (family : MethodId → Prop) : Chronicle → State → Prop
  | first {machine : Machine} (methods : machine.heap.methods.size = 0)
    (states : machine.heap.states.size = 0) (blocks : machine.heap.blocks.size = 0) :
    Chronicled family .blank (.idle machine)
  | hosted {chronicle : Chronicle} {state : State} {machine : Machine}
    (chronicled : Chronicled family chronicle state) (rests : state.step = none)
    (hosted : state.machine.Hosted machine)
    (contexts : machine.heap.contexts = state.machine.heap.contexts)
    (blocks : machine.heap.blocks = state.machine.heap.blocks)
    (sites : ∀ method, state.machine.heap.methods.Has method →
      machine.heap.siteCount method = state.machine.heap.siteCount method) :
    Chronicled family chronicle (.idle machine)
  | called {chronicle : Chronicle} {state : State} (chronicled : Chronicled family chronicle state)
    (rests : state.step = none) (made : Call) :
    Chronicled family chronicle ⟨state.machine, .call made, []⟩
  | stepped {chronicle : Chronicle} {before after : State}
    (chronicled : Chronicled family chronicle before)
    (lexical : before.machine.heap.code.Lexical family) (stepped : before.step = some after) :
    Chronicled family (chronicle.next before after) after

namespace Chronicled

variable {family : MethodId → Prop} {chronicle : Chronicle} {state : State}

theorem ready (chronicled : Chronicled family chronicle state) : state.machine.heap.Ready := by
  induction chronicled with
  | first methods states _ => exact Heap.ready_of_empty methods states
  | hosted _ _ hosted _ _ _ ready => exact hosted.ready ready
  | called _ _ _ ready => exact ready
  | stepped _ _ stepped ready => exact (State.stable_step ⟨ready, rfl, fun _ => rfl⟩ stepped).ready

/-- A host may add a method. -/
theorem addMethod {machine : Machine} (chronicled : Chronicled family chronicle (.idle machine))
    {method : Method} (knows : machine.heap.symbols.Knows method.literals) :
    Chronicled family chronicle
      (.idle { machine with heap := (machine.heap.addMethod method).2 }) :=
  .hosted chronicled rfl (.addMethod method knows) rfl rfl fun _ =>
    Heap.siteCount_addMethod chronicled.ready.rows method

/-- What a host does leaves every method that there is as it is. -/
theorem methods_of_hosted {before after : Machine} (hosted : before.Hosted after)
    {method : MethodId} (has : before.heap.methods.Has method) :
    after.heap.methods.Has method ∧
      after.heap.methods.get method = before.heap.methods.get method := by
  cases hosted with
  | intern text => exact ⟨has, rfl⟩
  | addMethod added knows =>
    exact ⟨Table.has_add_of_has _ _ _ has, Table.get_add_of_has _ _ _ has⟩
  | aside after code rows patch receiver threaded =>
    rw [show after.heap.methods = before.heap.methods from congrArg Code.methods code]
    exact ⟨has, rfl⟩

/-- A host that keeps the sites there are leaves every byte of code with its site. -/
theorem sited_of_hosted {before after : Machine} (hosted : before.Hosted after)
    (rows : before.heap.states.size = before.heap.methods.size)
    (sites : ∀ method, before.heap.methods.Has method →
      after.heap.siteCount method = before.heap.siteCount method)
    (sited : ∀ method, before.heap.methods.Has method →
      before.heap.siteCount method = (before.heap.methods.get method).code.size)
    {method : MethodId} (has : after.heap.methods.Has method) :
    after.heap.siteCount method = (after.heap.methods.get method).code.size := by
  by_cases old : before.heap.methods.Has method
  · rw [sites method old, sited method old, (methods_of_hosted hosted old).2]
  · cases hosted with
    | intern text => exact (old has).elim
    | addMethod added knows =>
      have new : method = before.heap.methods.next :=
        Decidable.of_not_not fun apart => old (Table.has_of_has_add has apart)
      subst new
      show ((before.heap.addMethod added).2.states.get _).sites.size =
        ((before.heap.methods.add added).get _).code.size
      rw [Heap.states_addMethod_next rows, Table.get_add_next]
      exact Array.size_replicate
    | aside after code rows patch receiver threaded =>
      rw [show after.heap.methods = before.heap.methods from congrArg Code.methods code] at has
      exact (old has).elim

/-- A step leaves the code as it is, and every byte of it with its site. -/
theorem sited_of_step {before after : State} (ready : before.machine.heap.Ready)
    (stepped : before.step = some after) {method : MethodId}
    (sited : before.machine.heap.methods.Has method → before.machine.heap.siteCount method =
      (before.machine.heap.methods.get method).code.size)
    (has : after.machine.heap.methods.Has method) :
    after.machine.heap.siteCount method = (after.machine.heap.methods.get method).code.size := by
  obtain ⟨-, code, sites⟩ := State.stable_step ⟨ready, rfl, fun _ => rfl⟩ stepped
  have methods : after.machine.heap.methods = before.machine.heap.methods :=
    congrArg Code.methods code
  rw [methods] at has ⊢
  exact (sites method).trans (sited has)

/-- Every byte of code has its site. -/
theorem sited (chronicled : Chronicled family chronicle state) {method : MethodId}
    (has : state.machine.heap.methods.Has method) :
    state.machine.heap.siteCount method = (state.machine.heap.methods.get method).code.size := by
  induction chronicled generalizing method with
  | @first machine methods =>
    have bound : method.index < machine.heap.methods.size := has
    rw [methods] at bound
    exact (Nat.not_lt_zero _ bound).elim
  | hosted chronicled _ hosted _ _ sites sited =>
    exact sited_of_hosted hosted chronicled.ready.rows sites (fun _ => sited) has
  | called _ _ _ sited => exact sited has
  | stepped chronicled _ stepped sited => exact sited_of_step chronicled.ready stepped sited has

/-- Slots follow the chronicle in every state. -/
theorem follows (chronicled : Chronicled family chronicle state) :
    chronicle.Follows family state.scene state.homes := by
  induction chronicled with
  | @first machine methods states blocks =>
    refine .blank fun block has => ?_
    rw [show (State.idle machine).scene.blocks = machine.heap.blocks from rfl, Table.Has,
      blocks] at has
    exact Nat.not_lt_zero _ has
  | @hosted chronicle state machine _ rests hosted contexts blocks _ follows =>
    rw [State.homes_of_over rests] at follows
    exact follows.hosted contexts blocks fun method => methods_of_hosted hosted
  | @called chronicle state _ rests made follows =>
    rw [State.homes_of_over rests] at follows
    exact follows
  | stepped chronicled lexical stepped follows =>
    exact follows.step (lexical.obeys chronicled.ready.coherent follows) (State.goes_step stepped)

end Chronicled

end ObjectMachine
