/-
This file shows that variables are lexical. The running machine knows nothing of variables: an
access is resolved to a slot on its first execution, the slot is patched into code that all
activations share, and a context further out is found by going through the receivers of
blocks. The chronicle knows nothing of slots. What an access does to the one is what it says
about the other: it reads or writes one variable of one activation, a number of lexical levels
out, whether that activation is still live or not.
-/

import ObjectMachine.Proofs.LexicalScopes
import ObjectMachine.Proofs.NonLocalReturn

namespace ObjectMachine

/-! ### Enclosing activations -/

namespace Chronicle

/-- The activation a number of lexical levels out. -/
def enclosing? (chronicle : Chronicle) : (serial levels : Nat) → Option Nat
  | serial, 0 => some serial
  | serial, levels + 1 =>
    (chronicle.chapter serial).parent.bind (chronicle.enclosing? · levels)

/-- An activation and those around it, this many in all, evaluate blocks that hold contexts. -/
def Closures (chronicle : Chronicle) (serial levels : Nat) : Prop :=
  ∀ inner < levels, ∀ through, chronicle.enclosing? serial inner = some through →
    (chronicle.chapter through).closure = true

/-- The chronicle after a store into one variable of one activation. -/
def assign (chronicle : Chronicle) (target : Nat) (kind : VariableKind) (index : Nat)
    (value : Value) : Chronicle :=
  { chronicle with
    chapter := fun serial =>
      if serial = target then
        { chronicle.chapter serial with
          memory := fun other position =>
            if other = kind ∧ position = index then value
            else (chronicle.chapter serial).memory other position }
      else chronicle.chapter serial }

section

variable {family : MethodId → Prop} {chronicle : Chronicle} {scene : Scene} {homes : List Home}
  {serial target level : Nat}

/-- An activation further out is one of the family, and its level that of the scope. -/
theorem Follows.enclosing (follows : chronicle.Follows family scene homes)
    (recent : serial < chronicle.started) (member : family (chronicle.chapter serial).method)
    (encloses : chronicle.enclosing? serial level = some target) :
    target < chronicle.started ∧ family (chronicle.chapter target).method ∧
      (chronicle.chapter serial).scope.level? level =
        some (chronicle.chapter target).scope.own := by
  induction level generalizing serial with
  | zero =>
    cases encloses
    exact ⟨recent, member, rfl⟩
  | succ level inductionHypothesis =>
    obtain ⟨parent, found, encloses⟩ := Option.bind_eq_some_iff.mp encloses
    have nested := follows.parents recent member found
    obtain ⟨_, context, -, -, anchored⟩ := nested.captured
    obtain ⟨old, kin, declares⟩ :=
      inductionHypothesis (follows.owned anchored).1 nested.family encloses
    refine ⟨old, kin, ?_⟩
    rw [Scope.level?, List.getElem?_cons_succ, nested.scope]
    exact declares

/-- Through blocks that hold contexts there is a way out of as many levels. -/
theorem Follows.exists_enclosing (follows : chronicle.Follows family scene homes)
    (recent : serial < chronicle.started) (member : family (chronicle.chapter serial).method)
    (closures : chronicle.Closures serial level) :
    ∃ target, chronicle.enclosing? serial level = some target := by
  induction level generalizing serial with
  | zero => exact ⟨serial, rfl⟩
  | succ level inductionHypothesis =>
    have closure := closures 0 (Nat.succ_pos level) serial rfl
    obtain ⟨parent, found⟩ :=
      Option.isSome_iff_exists.mp ((follows.sound recent member).enclosed closure)
    have nested := follows.parents recent member found
    obtain ⟨_, context, -, -, anchored⟩ := nested.captured
    have further : chronicle.Closures parent level := fun inner below through encloses =>
      closures (inner + 1) (Nat.succ_lt_succ below) through
        (Option.bind_eq_some_iff.mpr ⟨parent, found, encloses⟩)
    obtain ⟨target, encloses⟩ :=
      inductionHypothesis (follows.owned anchored).1 nested.family further
    exact ⟨target, Option.bind_eq_some_iff.mpr ⟨parent, found, encloses⟩⟩

end

section

variable {family : MethodId → Prop} {chronicle : Chronicle} {machine : Machine}
  {homes : List Home} {serial target : Nat}

/-- Going outwards from block to block leads to the context of an enclosing activation. -/
theorem Follows.blockOutFrom (follows : chronicle.Follows family machine.heap.scene homes)
    {levels : Nat} {block : BlockId} (recent : serial < chronicle.started)
    (member : family (chronicle.chapter serial).method)
    (receives : (chronicle.chapter serial).receiver = .block block)
    (encloses : chronicle.enclosing? serial (levels + 1) = some target) :
    ∃ outer context, Frame.blockOutFrom levels block machine = .ok outer machine ∧
      (machine.heap.blocks.get outer).context = some context ∧
      (chronicle.chapter target).context = some context := by
  induction levels generalizing serial block with
  | zero =>
    obtain ⟨parent, found, encloses⟩ := Option.bind_eq_some_iff.mp encloses
    cases encloses
    obtain ⟨other, context, same, captured, anchored⟩ :=
      (follows.parents recent member found).captured
    cases receives.symm.trans same
    exact ⟨block, context, rfl, captured, anchored⟩
  | succ levels inductionHypothesis =>
    obtain ⟨parent, found, encloses⟩ := Option.bind_eq_some_iff.mp encloses
    have nested := follows.parents recent member found
    obtain ⟨other, context, same, captured, anchored⟩ := nested.captured
    cases receives.symm.trans same
    obtain ⟨old, -, holds⟩ := follows.owned anchored
    -- The parent is itself enclosed, so it evaluates a block too.
    obtain ⟨grand, above, -⟩ := Option.bind_eq_some_iff.mp encloses
    obtain ⟨outer, _, evaluates, -, -⟩ :=
      (follows.parents old nested.family above).captured
    have next : Frame.outerReceiver? machine.heap block = some (.block outer) := by
      have slot : (machine.heap.contexts.get context).slots[0]? =
          some (chronicle.chapter parent).receiver := (holds nested.family).receiver
      have captured : (machine.heap.blocks.get block).context = some context := captured
      rw [Frame.outerReceiver?, Heap.blockContext?, captured, Option.map_some, Option.map_some,
        Array.getD_eq_getD_getElem?, slot, evaluates]
      rfl
    have read : Engine.heapValue (Frame.outerReceiver? · block) machine =
        .ok (some (.block outer)) machine := congrArg (EStateM.Result.ok · machine) next
    rw [Frame.blockOutFrom, Engine.bind_of_ok read]
    exact inductionHypothesis old nested.family evaluates encloses

/-- An activation further out has a context, which blocks that it made have kept. -/
theorem Follows.context_of_enclosing (follows : chronicle.Follows family machine.heap.scene homes)
    {level : Nat} (recent : serial < chronicle.started)
    (member : family (chronicle.chapter serial).method) (outer : level ≠ 0)
    (encloses : chronicle.enclosing? serial level = some target) :
    ∃ context, (chronicle.chapter target).context = some context := by
  obtain ⟨levels, rfl⟩ := Nat.exists_eq_succ_of_ne_zero outer
  obtain ⟨parent, above, -⟩ := Option.bind_eq_some_iff.mp encloses
  obtain ⟨block, _, evaluates, -, -⟩ := (follows.parents recent member above).captured
  obtain ⟨_, context, -, -, anchored⟩ := follows.blockOutFrom recent member evaluates encloses
  exact ⟨context, anchored⟩

/-- The context of an enclosing activation is found. -/
theorem Follows.contextAt (follows : chronicle.Follows family machine.heap.scene homes)
    {home : Home} {level : Nat} {context : ContextId}
    (lives : (chronicle.chapter serial).Lives family machine.heap.scene home)
    (recent : serial < chronicle.started) (member : family home.method)
    (encloses : chronicle.enclosing? serial level = some target)
    (anchored : (chronicle.chapter target).context = some context) :
    home.frame.contextAt level machine = .ok context machine := by
  cases level with
  | zero =>
    cases encloses
    rw [Frame.contextAt, if_pos rfl, lives.framed, ← lives.context, anchored]
    rfl
  | succ levels =>
    have kin : family (chronicle.chapter serial).method := lives.method ▸ member
    obtain ⟨parent, above, -⟩ := Option.bind_eq_some_iff.mp encloses
    obtain ⟨block, _, evaluates, -, -⟩ := (follows.parents recent kin above).captured
    have receives : home.frame.receiver = .block block := by
      rw [Frame.receiver, Array.getD_eq_getD_getElem?, (lives.slots member).receiver, evaluates]
      rfl
    obtain ⟨outer, found, reached, captured, owned⟩ :=
      follows.blockOutFrom recent kin evaluates encloses
    cases anchored.symm.trans owned
    have walked : home.frame.blockAt (levels + 1) machine = .ok outer machine := by
      rw [Frame.blockAt, receives]
      exact reached
    rw [Frame.contextAt, if_neg (Nat.succ_ne_zero levels), Engine.bind_of_ok walked]
    have read : Engine.heapValue (fun heap => (heap.blocks.get outer).context) machine =
        .ok (some context) machine := congrArg (EStateM.Result.ok · machine) captured
    rw [Engine.bind_of_ok read]
    rfl

end

end Chronicle

/-! ### Slots and variables -/

/-- A variable that has a place is not a receiver. -/
theorem Chapter.value_of_placed {chapter : Chapter} {level : ScopeLevel} {kind : VariableKind}
    {index : Nat} {place : VariablePlace} (placed : level.placeOf? kind index = some place) :
    chapter.value kind index = chapter.memory kind index := by
  cases kind with
  | «local» => cases index <;> rfl
  | argument =>
    cases index with
    | zero => cases placed
    | succ index => rfl

namespace Chronicle

section

variable {family : MethodId → Prop} {chronicle : Chronicle} {machine : Machine}
  {homes : List Home} {serial target : Nat} {home : Home} {access : Access}
  {reached : VariableAccess}

/-- What a place in the frame of an activation holds, if it is the place of its receiver. -/
theorem Follows.frame_holds (follows : chronicle.Follows family machine.heap.scene homes)
    (lives : (chronicle.chapter serial).Lives family machine.heap.scene home)
    (recent : serial < chronicle.started) (member : family home.method)
    {kind : VariableKind} {index : UInt8} {slot : Nat}
    (placed : (chronicle.chapter serial).scope.placeOf? kind index 0 = some (.frame slot)) :
    home.frame.slots[(UInt8.ofNat slot).toNat]? =
      some ((chronicle.chapter serial).value kind index.toNat) := by
  have holds := lives.slots member
  by_cases receiver : kind = .argument ∧ index = 0
  · obtain ⟨rfl, rfl⟩ := receiver
    cases placed
    exact holds.receiver
  · rw [Scope.placeOf?_eq _ _ fun argument zero => receiver ⟨argument, zero⟩] at placed
    have placed : (chronicle.chapter serial).scope.own.placeOf? kind index.toNat =
        some (.frame slot) := placed
    have sound := follows.sound recent (lives.method ▸ member)
    have tells : (UInt8.ofNat slot).toNat = slot := (sound.addressable.slot placed).1
    rw [Chapter.value_of_placed placed, tells]
    exact holds.stored placed rfl

/-- What a place in the context of an activation holds, which has one then. -/
theorem Follows.context_holds (follows : chronicle.Follows family machine.heap.scene homes)
    {scope : Scope} {kind : VariableKind} {index level : UInt8} {slot : Nat}
    (recent : target < chronicle.started) (member : family (chronicle.chapter target).method)
    (declares : scope.level? level.toNat = some (chronicle.chapter target).scope.own)
    (placed : scope.placeOf? kind index level = some (.inner slot)) :
    ∃ context, (chronicle.chapter target).context = some context ∧
      (machine.heap.contexts.get context).slots[(UInt8.ofNat slot).toNat]? =
        some ((chronicle.chapter target).value kind index.toNat) := by
  have sound := follows.sound recent member
  have opened (nonempty : (chronicle.chapter target).scope.own.innerSize ≠ 0) :
      ∃ context, (chronicle.chapter target).context = some context :=
    Option.ne_none_iff_exists'.mp fun closed => nonempty (sound.opened.mp closed)
  by_cases receiver : kind = .argument ∧ index = 0
  · obtain ⟨rfl, rfl⟩ := receiver
    rw [Scope.placeOf?_receiver declares] at placed
    split at placed
    · cases placed
    · split at placed
      · rename_i nonempty
        cases placed
        obtain ⟨context, anchored⟩ := opened (Nat.ne_of_gt (of_decide_eq_true nonempty))
        exact ⟨context, anchored, ((follows.owned anchored).2.2 member).receiver⟩
      · cases placed
  · rw [Scope.placeOf?_eq _ _ fun argument zero => receiver ⟨argument, zero⟩, declares] at placed
    have placed : (chronicle.chapter target).scope.own.placeOf? kind index.toNat =
        some (.inner slot) := placed
    have within := (sound.addressable.settled.inner placed).2
    obtain ⟨context, anchored⟩ := opened (Nat.ne_of_gt (Nat.lt_of_le_of_lt (Nat.zero_le _) within))
    refine ⟨context, anchored, ?_⟩
    have tells : (UInt8.ofNat slot).toNat = slot := (sound.addressable.slot placed).1
    rw [Chapter.value_of_placed placed, tells]
    exact ((follows.owned anchored).2.2 member).stored placed rfl

/--
The slot that a resolved access reaches holds what the variable holds of the activation that it
goes to, if that one's context is found on the way there.
-/
theorem Follows.finds_of_walk (follows : chronicle.Follows family machine.heap.scene homes)
    (lives : (chronicle.chapter serial).Lives family machine.heap.scene home)
    (recent : serial < chronicle.started) (member : family home.method)
    (old : target < chronicle.started) (kin : family (chronicle.chapter target).method)
    (declares : (chronicle.chapter serial).scope.level? access.level.toNat =
      some (chronicle.chapter target).scope.own)
    (own : access.level = 0 → target = serial)
    (walk : ∀ context, (chronicle.chapter target).context = some context →
      home.frame.contextAt access.level.toNat machine = .ok context machine)
    (resolved : (chronicle.chapter serial).scope.resolve? access.kind access.index access.level =
      some reached) :
    home.frame.Finds machine reached
      ((chronicle.chapter target).value access.kind access.index.toNat) := by
  rw [Scope.resolve?_eq] at resolved
  obtain ⟨place, placed, reach⟩ := Option.bind_eq_some_iff.mp resolved
  cases place with
  | frame slot =>
    rw [VariablePlace.from?] at reach
    split at reach
    · rename_i here
      cases reach
      rw [here] at placed
      rw [own here]
      exact .frame (follows.frame_holds lives recent member placed)
    · cases reach
  | inner slot =>
    obtain ⟨context, anchored, held⟩ := follows.context_holds old kin declares placed
    have found := walk context anchored
    rw [VariablePlace.from?] at reach
    split at reach
    · rename_i here
      cases reach
      rw [here] at found
      exact .own found held
    · cases reach
      exact .outer found held

/-- The slot that a resolved access reaches holds what the variable holds. -/
theorem Follows.finds (follows : chronicle.Follows family machine.heap.scene homes)
    (lives : (chronicle.chapter serial).Lives family machine.heap.scene home)
    (recent : serial < chronicle.started) (member : family home.method)
    (encloses : chronicle.enclosing? serial access.level.toNat = some target)
    (resolved : (chronicle.chapter serial).scope.resolve? access.kind access.index access.level =
      some reached) :
    home.frame.Finds machine reached
      ((chronicle.chapter target).value access.kind access.index.toNat) := by
  obtain ⟨old, kin, declares⟩ := follows.enclosing recent (lives.method ▸ member) encloses
  refine follows.finds_of_walk lives recent member old kin declares (fun own => ?_)
    (fun context anchored => follows.contextAt lives recent member encloses anchored) resolved
  rw [own] at encloses
  cases encloses
  rfl

end

end Chronicle

/-! ### Reach -/

/--
An access goes to a receiver, to a variable of its own scope or to a captured one further out,
the scope that declares it having these flags.
-/
def Access.InReach (access : Access) (arguments locals : List Bool) : Prop :=
  access.kind = .argument ∧ access.index = 0 ∨
    ∃ captured, ScopeLevel.flagOf? arguments locals access.kind access.index.toNat =
      some captured ∧ (access.level = 0 ∨ captured = true)

namespace Scope

variable {scope : Scope} {access : Access} {arguments locals : List Bool} {needsContext : Bool}
  (declares : scope.level? access.level.toNat = some (.of arguments locals needsContext))

include declares

/-- Where a declared variable is placed. -/
theorem placeOf?_of_flag {captured : Bool}
    (declared : ScopeLevel.flagOf? arguments locals access.kind access.index.toNat =
      some captured) :
    ∃ slot, scope.placeOf? access.kind access.index access.level =
      some (if captured then .inner slot else .frame slot) := by
  have other : access.kind = .argument → access.index ≠ 0 := by
    intro argument zero
    rw [argument, zero] at declared
    cases declared
  rw [placeOf?_eq _ _ other, declares, Option.bind_some, ScopeLevel.placeOf?_of, declared]
  cases captured <;> exact ⟨_, rfl⟩

/-- A variable further out that is not captured is not resolved. -/
theorem resolve?_of_uncaptured (outer : access.level ≠ 0)
    (declared : ScopeLevel.flagOf? arguments locals access.kind access.index.toNat = some false) :
    scope.resolve? access.kind access.index access.level = none := by
  obtain ⟨slot, placed⟩ := placeOf?_of_flag declares declared
  rw [resolve?_eq, placed]
  exact if_neg outer

/-- What is in reach is resolved, the level further out having a context. -/
theorem resolve?_of_inReach (inReach : access.InReach arguments locals)
    (opened : access.level ≠ 0 → (ScopeLevel.of arguments locals needsContext).innerSize ≠ 0) :
    ∃ reached, scope.resolve? access.kind access.index access.level = some reached := by
  rw [resolve?_eq]
  rcases inReach with ⟨argument, zero⟩ | ⟨captured, declared, reach⟩
  · rw [argument, zero, placeOf?_receiver declares]
    by_cases own : access.level = 0
    · rw [if_pos own]
      exact ⟨_, if_pos own⟩
    · have context : (ScopeLevel.of arguments locals needsContext).hasContext = true :=
        decide_eq_true (Nat.pos_of_ne_zero (opened own))
      rw [if_neg own, if_pos context]
      exact ⟨_, if_neg own⟩
  · obtain ⟨slot, placed⟩ := placeOf?_of_flag declares declared
    rw [placed]
    cases captured with
    | true =>
      by_cases own : access.level = 0
      · exact ⟨_, if_pos own⟩
      · exact ⟨_, if_neg own⟩
    | false => exact ⟨_, if_pos (reach.resolve_right Bool.false_ne_true)⟩

end Scope

/-- What a variable is resolved to can be used in every way that code has for it. -/
theorem Access.reach?_isSome {instruction : Instruction} {access : Access} {scope : Scope}
    {reached : VariableAccess} (accesses : instruction.access? = some access)
    (resolved : scope.resolve? access.kind access.index access.level = some reached) :
    ∃ resolution, reach? access.usage reached = some resolution := by
  cases instruction with
  | nilLocal index =>
    cases accesses
    rw [Scope.resolve?_eq] at resolved
    obtain ⟨place, -, found⟩ := Option.bind_eq_some_iff.mp resolved
    cases place <;> cases found <;> exact ⟨_, rfl⟩
  | _ => cases accesses <;> exact ⟨_, rfl⟩

namespace Chronicle

section

variable {family : MethodId → Prop} {chronicle : Chronicle} {machine : Machine}
  {homes : List Home} {serial target : Nat} {home : Home} {access : Access}
  {reached : VariableAccess}

/-- What has the place of a variable is that variable. -/
theorem put_of_placed {chapter : Chapter} {kind : VariableKind} {index : Nat}
    {place : VariablePlace} (settled : chapter.scope.own.Settled)
    (placed : chapter.scope.own.placeOf? kind index = some place) (value : Value) :
    chapter.put place value =
      { chapter with
        memory := fun other position =>
          if other = kind ∧ position = index then value else chapter.memory other position } := by
  rw [Chapter.put]
  congr 1
  funext other position
  have same : chapter.scope.own.placeOf? other position = some place ↔
      other = kind ∧ position = index := by
    constructor
    · exact fun found => settled.apart found placed
    · rintro ⟨rfl, rfl⟩
      exact placed
  simp only [same]

/-- A store goes to the frame of the own activation or to the context of an enclosing one. -/
theorem Follows.storing_cases (follows : chronicle.Follows family machine.heap.scene homes)
    (lives : (chronicle.chapter serial).Lives family machine.heap.scene home)
    (recent : serial < chronicle.started) (member : family home.method)
    (encloses : chronicle.enclosing? serial access.level.toNat = some target)
    (resolved : (chronicle.chapter serial).scope.resolve? access.kind access.index access.level =
      some reached)
    (other : access.kind = .argument → access.index ≠ 0) (value : Value) :
    ∃ slot, (target = serial ∧
        (chronicle.chapter target).scope.own.placeOf? access.kind access.index.toNat =
          some (.frame slot) ∧
        home.frame.storing machine value reached = .storeFrame slot value) ∨
      ((chronicle.chapter target).scope.own.placeOf? access.kind access.index.toNat =
          some (.inner slot) ∧
        ∃ context, (chronicle.chapter target).context = some context ∧
          home.frame.storing machine value reached = .storeContext context slot value) := by
  obtain ⟨old, kin, declares⟩ := follows.enclosing recent (lives.method ▸ member) encloses
  rw [Scope.resolve?_eq] at resolved
  obtain ⟨place, placed, reach⟩ := Option.bind_eq_some_iff.mp resolved
  have addressable := (follows.sound old kin).addressable
  have lies := placed
  rw [Scope.placeOf?_eq _ _ other, declares, Option.bind_some] at lies
  cases place with
  | frame slot =>
    have tells : (UInt8.ofNat slot).toNat = slot := (addressable.slot lies).1
    rw [VariablePlace.from?] at reach
    split at reach
    · rename_i own
      cases reach
      rw [own] at encloses
      cases encloses
      exact ⟨slot, .inl ⟨rfl, lies, by rw [Frame.storing, tells]⟩⟩
    · cases reach
  | inner slot =>
    have tells : (UInt8.ofNat slot).toNat = slot := (addressable.slot lies).1
    obtain ⟨context, anchored, -⟩ := follows.context_holds old kin declares placed
    have found := follows.contextAt lives recent member encloses anchored
    refine ⟨slot, .inr ⟨lies, context, anchored, ?_⟩⟩
    rw [VariablePlace.from?] at reach
    split at reach
    · rename_i own
      cases reach
      rw [own] at found
      rw [Frame.storing, show home.frame.contextAt 0 machine = _ from found, Deed.store, tells]
    · cases reach
      rw [Frame.storing, found, Deed.store, tells]

/-- A store into the slot of a variable is one into the variable, and into nothing else. -/
theorem assigned {place : VariablePlace} {kind : VariableKind} {index : Nat}
    (settled : (chronicle.chapter target).scope.own.Settled)
    (placed : (chronicle.chapter target).scope.own.placeOf? kind index = some place)
    (value : Value) {which : Nat → Prop} [DecidablePred which]
    (only : ∀ other, which other ↔ other = target) :
    { chronicle with
      chapter := fun other =>
        if which other then (chronicle.chapter other).put place value
        else chronicle.chapter other } = chronicle.assign target kind index value := by
  rw [assign]
  congr 1
  funext other
  simp only [only]
  split
  · rename_i same
    subst same
    exact put_of_placed settled placed value
  · rfl

theorem Follows.perform_storeFrame {scene : Scene}
    (follows : chronicle.Follows family scene homes)
    (innermost : chronicle.live.head? = some target)
    (member : family (chronicle.chapter target).method) {kind : VariableKind} {index slot : Nat}
    (placed : (chronicle.chapter target).scope.own.placeOf? kind index = some (.frame slot))
    (value : Value) :
    chronicle.perform scene (.storeFrame slot value) =
      chronicle.assign target kind index value := by
  have recent := follows.recent target (List.mem_of_head? innermost)
  refine assigned (follows.sound recent member).addressable.settled placed value fun other => ?_
  rw [innermost, Option.some.injEq]
  exact eq_comm

theorem Follows.perform_storeContext {scene : Scene}
    (follows : chronicle.Follows family scene homes) {context : ContextId}
    (anchored : (chronicle.chapter target).context = some context)
    (member : family (chronicle.chapter target).method) {kind : VariableKind} {index slot : Nat}
    (placed : (chronicle.chapter target).scope.own.placeOf? kind index = some (.inner slot))
    (value : Value) :
    chronicle.perform scene (.storeContext context slot value) =
      chronicle.assign target kind index value := by
  have recent := (follows.owned anchored).1
  refine assigned (follows.sound recent member).addressable.settled placed value fun other =>
    ⟨fun same => follows.apart same anchored, ?_⟩
  rintro rfl
  exact anchored

end

end Chronicle

/-! ### Variables -/

namespace State

/-- The same turn is about to be taken, only that some instructions may have been replaced. -/
structure Awaits (before after : State) : Prop where
  focus : after.focus = before.focus
  waiting : after.waiting = before.waiting
  machine : before.machine.Relearns after.machine

/-- The next step pushes a value, or ends the activation because the stack is full. -/
def Pushes (state : State) (chronicle : Chronicle) (leg : Leg) (live : Live) (next : Nat)
    (value : Value) : Prop :=
  match live.activation.stack.push? value with
  | some stack => ∃ after, state.step = some after ∧ chronicle.next state after = chronicle ∧
      after = ⟨state.machine,
        .turn leg { live with activation := { live.activation with stack }, offset := next },
        state.waiting⟩
  | none => state.step =
      some (abandoned live state.waiting (.stackFault live.activation.method) state.machine)

/--
The next step stores into a variable of an activation: into one slot of the running frame or
of the activation's context, and into nothing else.
-/
def Stores (state : State) (chronicle : Chronicle) (leg : Leg) (live : Live) (next target : Nat)
    (access : Access) (stack : OperandStack) (value : Value) : Prop :=
  ∃ (deed : Deed) (slot : Nat),
    (deed = .storeFrame slot value ∧ chronicle.live.head? = some target ∨
      ∃ context, (chronicle.chapter target).context = some context ∧
        deed = .storeContext context slot value) ∧
    ∃ after, state.step = some after ∧
      chronicle.next state after =
        chronicle.assign target access.kind access.index.toNat value ∧
      after = ⟨deed.machine state.machine,
        .turn leg { live with
          activation := { live.activation with frame := deed.frame live.activation.frame, stack }
          offset := next }, state.waiting⟩

/-- The next step does what an access says, to a variable of an activation. -/
def Accesses (state : State) (chronicle : Chronicle) (leg : Leg) (live : Live) (next target : Nat)
    (access : Access) : Prop :=
  match access.usage with
  | .push => state.Pushes chronicle leg live next
      ((chronicle.chapter target).value access.kind access.index.toNat)
  | .pop =>
    match live.activation.stack.pop? with
    | some (value, stack) => state.Stores chronicle leg live next target access stack value
    | none => state.step =
        some (abandoned live state.waiting (.stackFault live.activation.method) state.machine)
  | .clear => state.Stores chronicle leg live next target access live.activation.stack .nil

end State

/-- Variables are lexical in a state, the chronicle telling what they hold. -/
structure Chronicle.Explains (family : MethodId → Prop) (chronicle : Chronicle) (state : State) :
    Prop where
  /--
  Around whatever evaluates a block that holds a context there is what has made the block. So
  there is an activation of the family at every level that an access may name, as long as
  methods that are nested in others are run by evaluating such blocks.
  -/
  enclosed : ∀ serial levels, serial < chronicle.started →
    family (chronicle.chapter serial).method → chronicle.Closures serial levels →
      ∃ target, chronicle.enclosing? serial levels = some target ∧ target < chronicle.started ∧
        family (chronicle.chapter target).method ∧
        (chronicle.chapter serial).scope.level? levels = some (chronicle.chapter target).scope.own
  /-- Blocks hold the context that the activation has for its captured variables. -/
  captured : ∀ leg live serial, state.focus = .turn leg live →
    chronicle.live.head? = some serial → family live.activation.method →
    (state.machine.heap.methods.get live.activation.method).innerSize ≠ 0 →
      ∃ context, live.activation.frame.context = some context ∧
        (chronicle.chapter serial).context = some context
  /-- An access further out to a variable that is not captured is an error. -/
  unresolved : ∀ leg live instruction length access arguments locals needsContext,
    state.focus = .turn leg live →
    state.machine.heap.code.encoded live.activation.method live.offset =
      .ok (instruction, length) →
    instruction.access? = some access →
    (state.machine.heap.methods.get live.activation.method).scope.level? access.level.toNat =
      some (.of arguments locals needsContext) →
    access.level ≠ 0 →
    ScopeLevel.flagOf? arguments locals access.kind access.index.toNat = some false →
      state.step = some (State.abandoned live state.waiting
        (.error (.unresolvedVariable
          (state.machine.heap.signatureText (.method live.activation.method)) live.offset))
        state.machine)
  /-- Any other access goes to its variable, on its first execution after it is resolved. -/
  accesses : ∀ leg live instruction length access arguments locals needsContext serial target,
    state.focus = .turn leg live → family live.activation.method →
    state.machine.heap.code.encoded live.activation.method live.offset =
      .ok (instruction, length) →
    instruction.access? = some access →
    (state.machine.heap.methods.get live.activation.method).scope.level? access.level.toNat =
      some (.of arguments locals needsContext) →
    access.InReach arguments locals → chronicle.live.head? = some serial →
    chronicle.enclosing? serial access.level.toNat = some target →
      ∃ ready, state.Awaits ready ∧
        (ready = state ∨ state.step = some ready ∧ chronicle.next state ready = chronicle) ∧
        ready.Accesses chronicle leg live (live.offset + length) target access

/-- The chronicle of a turn that only goes on. -/
theorem State.next_of_turns {state : State} {leg : Leg} {live : Live} (chronicle : Chronicle)
    (turns : state.focus = .turn leg live)
    (machine : Machine) (other : Live) :
    chronicle.next state ⟨machine, .turn leg other, state.waiting⟩ =
      chronicle.perform state.scene state.deed := by
  have length : (State.mk machine (.turn leg other) state.waiting).homes.length =
      state.homes.length := by
    rw [homes_of_turn turns]
    rfl
  rw [Chronicle.next, length, if_neg (Nat.lt_irrefl _), if_neg (Nat.lt_irrefl _)]

namespace Chronicle

section

variable {family : MethodId → Prop} {chronicle : Chronicle} {state : State} {leg : Leg}
  {live : Live} {serial target : Nat} {access : Access} {reached : VariableAccess}
  {resolution : Instruction} {next : Nat}
  (follows : chronicle.Follows family state.scene state.homes)
  (turns : state.focus = .turn leg live) (member : family live.activation.method)
  (innermost : chronicle.live.head? = some serial)
  (encloses : chronicle.enclosing? serial access.level.toNat = some target)
  (resolved : (chronicle.chapter serial).scope.resolve? access.kind access.index access.level =
    some reached)

include follows turns

/-- The innermost activation is the one that takes the turn. -/
theorem Follows.runs : ∃ serial, chronicle.live.head? = some serial ∧
    (chronicle.chapter serial).Lives family state.machine.heap.scene live.home :=
  follows.accounts.head (by rw [State.homes_of_turn turns, List.head?_cons])

include member innermost encloses resolved

/-- A turn that pushes what a slot holds pushes what the variable holds. -/
theorem Follows.pushes
    (fetched : leg.fetch live.activation live.offset state.machine =
      .ok ⟨reached.push, next⟩ state.machine) :
    state.Pushes chronicle leg live next
      ((chronicle.chapter target).value access.kind access.index.toNat) := by
  obtain ⟨other, first, lives⟩ := follows.runs turns
  cases innermost.symm.trans first
  have recent := follows.recent serial (List.mem_of_head? innermost)
  have finds : live.activation.frame.Finds state.machine reached _ :=
    follows.finds lives recent member encloses resolved
  have begun := live.activation.begin_push live.offset finds
  have pushes : Access.reach? .push reached = some reached.push := rfl
  have notSend := Access.not_send pushes
  unfold State.Pushes
  split
  · rename_i stack pushed
    rw [pushed] at begun
    refine ⟨_, State.step_of_ok turns (Leg.advance_of_next fetched notSend begun), ?_, rfl⟩
    refine (State.next_of_turns chronicle turns _ _).trans ?_
    rw [State.deed_of_fetch turns fetched]
    cases reached <;> rfl
  · rename_i full
    rw [full] at begun
    exact State.step_of_error turns (Leg.advance_of_error fetched notSend begun)

/-- A turn that stores into a slot stores into the variable. -/
theorem Follows.stores (other : access.kind = .argument → access.index ≠ 0)
    (fetched : leg.fetch live.activation live.offset state.machine =
      .ok ⟨resolution, next⟩ state.machine)
    (notSend : ∀ literal arity, resolution ≠ .send literal arity) {stack : OperandStack}
    {value : Value}
    (does : live.activation.deed state.machine resolution =
      live.activation.frame.storing state.machine value reached)
    (begun : live.activation.begin live.offset resolution state.machine = (do
      let frame ← live.activation.frame.store value reached
      return .done .next { live.activation with frame, stack } : Engine Attempt) state.machine) :
    state.Stores chronicle leg live next target access stack value := by
  obtain ⟨_, first, lives⟩ := follows.runs turns
  cases innermost.symm.trans first
  have recent := follows.recent serial (List.mem_of_head? innermost)
  have kin := (follows.enclosing recent (lives.method ▸ member) encloses).2.1
  have finds : live.activation.frame.Finds state.machine reached _ :=
    follows.finds lives recent member encloses resolved
  obtain ⟨slot, cases⟩ :=
    follows.storing_cases lives recent member encloses resolved other value
  rw [Engine.bind_of_ok (Frame.store_of_finds finds value)] at begun
  refine ⟨_, slot, ?_, _,
    State.step_of_ok turns (Leg.advance_of_next fetched notSend begun), ?_, rfl⟩
  · rcases cases with ⟨rfl, -, stores⟩ | ⟨-, context, anchored, stores⟩
    · exact .inl ⟨stores, innermost⟩
    · exact .inr ⟨context, anchored, stores⟩
  · refine (State.next_of_turns chronicle turns _ _).trans ?_
    rw [State.deed_of_fetch turns fetched, does]
    rcases cases with ⟨rfl, placed, stores⟩ | ⟨placed, context, anchored, stores⟩
    · rw [show live.activation.frame.storing state.machine value reached = _ from stores]
      exact follows.perform_storeFrame innermost kin placed value
    · rw [show live.activation.frame.storing state.machine value reached = _ from stores]
      exact follows.perform_storeContext anchored kin placed value

/-- A turn that reads a resolved access does what the access says. -/
theorem Follows.accesses
    (other : access.usage ≠ .push → access.kind = .argument → access.index ≠ 0)
    (reaches : Access.reach? access.usage reached = some resolution)
    (fetched : leg.fetch live.activation live.offset state.machine =
      .ok ⟨resolution, next⟩ state.machine) :
    state.Accesses chronicle leg live next target access := by
  have notSend := Access.not_send reaches
  unfold State.Accesses
  split
  · rename_i usage
    rw [usage] at reaches
    cases reaches
    exact follows.pushes turns member innermost encloses resolved fetched
  · rename_i usage
    rw [usage] at reaches other
    cases reaches
    split
    · rename_i value stack popped
      refine follows.stores turns member innermost encloses resolved (other (by decide)) fetched
        notSend (Activation.deed_pop popped) ?_
      rw [Activation.begin_pop, Engine.bind_of_ok (Activation.pop_of_some popped)]
    · rename_i empty
      refine State.step_of_error turns (Leg.advance_of_error fetched notSend ?_)
      rw [Activation.begin_pop, Engine.bind_of_error (Activation.pop_of_none empty)]
  · rename_i usage
    rw [usage] at reaches other
    refine follows.stores turns member innermost encloses resolved (other (by decide)) fetched
      notSend (Activation.deed_clear reaches) ?_
    rw [Activation.begin_clear reaches]

end

end Chronicle

/-- An access that can be resolved has been resolved before its turn or is resolved by it. -/
theorem Chronicled.resolves {family : MethodId → Prop} {chronicle : Chronicle} {state : State}
    (chronicled : Chronicled family chronicle state) {leg : Leg} {live : Live}
    {instruction : Instruction} {length : Nat} {access : Access} {reached : VariableAccess}
    (turns : state.focus = .turn leg live)
    (encoded : state.machine.heap.code.encoded live.activation.method live.offset =
      .ok (instruction, length))
    (accesses : instruction.access? = some access)
    (resolved : (state.machine.heap.methods.get live.activation.method).scope.resolve? access.kind
      access.index access.level = some reached) :
    ∃ ready resolution, state.Awaits ready ∧
      (ready = state ∨ state.step = some ready ∧ chronicle.next state ready = chronicle) ∧
      ready.homes = state.homes ∧ Access.reach? access.usage reached = some resolution ∧
      leg.fetch live.activation live.offset ready.machine =
        .ok ⟨resolution, live.offset + length⟩ ready.machine := by
  obtain ⟨resolution, reaches⟩ := Access.reach?_isSome accesses resolved
  have replaced : state.machine.heap.code.resolution? live.activation.method instruction =
      some resolution := by
    rw [Code.resolution?_of_access accesses, Activation.resolvedAccess?_eq _ accesses]
    exact Option.bind_eq_some_iff.mpr ⟨reached, resolved, reaches⟩
  obtain ⟨after, learned, again, rfl | ⟨node, fetched, same, turned⟩⟩ :=
    leg.resolves chronicled.ready.coherent (chronicled.sited (Code.has_of_encoded encoded)) encoded
      accesses replaced
  · exact ⟨state, _, ⟨rfl, rfl, _, rfl⟩, .inl rfl, rfl, reaches, again⟩
  · refine ⟨⟨after, .turn leg live, state.waiting⟩, resolution, ⟨turns.symm, rfl, learned⟩,
      .inr ⟨State.step_of_ok turns turned, ?_⟩, (State.homes_of_turn turns).symm, reaches, again⟩
    refine (State.next_of_turns chronicle turns after live).trans ?_
    rw [State.deed_of_fetch turns fetched, same]
    cases instruction <;> cases accesses <;> rfl

/--
Take methods with nested blocks whose scopes are nested in the same way, and any program that
runs them among others, with whatever a host does between two runs. In every state an access
to a variable of an activation some lexical levels out is resolved, if it has not been before,
and then pushes what was stored last in that variable of that activation, or stores into it and
into nothing else; an access that goes further out than its own activation to a variable that
is not captured is an error. As far out as blocks with contexts are evaluated there is such an
activation, and it has the level that the scope declares.
-/
theorem variables_are_lexical {family : MethodId → Prop} {chronicle : Chronicle} {state : State}
    (chronicled : Chronicled family chronicle state)
    (lexical : state.machine.heap.code.Lexical family) : chronicle.Explains family state where
  enclosed serial levels recent member closures := by
    obtain ⟨target, encloses⟩ := chronicled.follows.exists_enclosing recent member closures
    exact ⟨target, encloses, chronicled.follows.enclosing recent member encloses⟩
  captured leg live serial turns innermost member nonempty := by
    obtain ⟨_, first, lives⟩ := chronicled.follows.runs turns
    cases innermost.symm.trans first
    have recent := chronicled.follows.recent serial (List.mem_of_head? innermost)
    have sound := chronicled.follows.sound recent (lives.method ▸ member)
    have scope : (state.machine.heap.methods.get live.activation.method).scope =
      (chronicle.chapter serial).scope := lives.scope
    rw [Method.innerSize, scope] at nonempty
    obtain ⟨context, anchored⟩ :=
      Option.ne_none_iff_exists'.mp fun closed => nonempty (sound.opened.mp closed)
    exact ⟨context, lives.framed.trans (lives.context.symm.trans anchored), anchored⟩
  unresolved leg live instruction length access arguments locals needsContext turns encoded
      accesses declares outer declared := by
    have unresolved : Activation.resolvedAccess?
        (state.machine.heap.methods.get live.activation.method).scope instruction = none := by
      rw [Activation.resolvedAccess?_eq _ accesses,
        Scope.resolve?_of_uncaptured declares outer declared]
      rfl
    obtain ⟨node, fetched, -, same | resolved⟩ :=
      leg.fetch_of_encoded chronicled.ready.coherent encoded
    · have notSend (literal : UInt8) (arity : Arity) :
          node.instruction ≠ .send literal arity := by
        rw [same]
        rintro rfl
        cases accesses
      refine State.step_of_error turns (Leg.advance_of_error fetched notSend ?_)
      rw [same]
      exact Activation.begin_of_unresolved accesses unresolved
    · rw [Code.resolution?_of_access accesses] at resolved
      cases unresolved.symm.trans resolved
  accesses leg live instruction length access arguments locals needsContext serial target turns
      member encoded accesses declares inReach innermost encloses := by
    have follows := chronicled.follows
    obtain ⟨_, first, lives⟩ := follows.runs turns
    cases innermost.symm.trans first
    have recent := follows.recent serial (List.mem_of_head? innermost)
    have kin : family (chronicle.chapter serial).method := lives.method ▸ member
    have scope : (state.machine.heap.methods.get live.activation.method).scope =
      (chronicle.chapter serial).scope := lives.scope
    obtain ⟨old, related, level⟩ := follows.enclosing recent kin encloses
    have own : (chronicle.chapter target).scope.own = .of arguments locals needsContext := by
      rw [← scope, declares] at level
      exact (Option.some.inj level).symm
    have opened (outer : access.level ≠ 0) :
        (ScopeLevel.of arguments locals needsContext).innerSize ≠ 0 := by
      obtain ⟨context, anchored⟩ := follows.context_of_enclosing recent kin
        (fun zero => outer (UInt8.toNat_inj.mp zero)) encloses
      intro closed
      rw [← own, ← (follows.sound old related).opened, anchored] at closed
      cases closed
    obtain ⟨reached, resolved⟩ := Scope.resolve?_of_inReach declares inReach opened
    obtain ⟨ready, resolution, awaits, steps, homes, reaches, fetched⟩ :=
      chronicled.resolves turns encoded accesses resolved
    obtain ⟨states, learned⟩ := awaits.machine
    have scene : ready.scene = state.scene := by
      rw [State.scene, learned]
      rfl
    have stays : chronicle.Follows family ready.scene ready.homes := by
      rw [scene, homes]
      exact follows
    rw [scope] at resolved
    exact ⟨ready, awaits, steps, stays.accesses (awaits.focus.trans turns) member innermost encloses
      resolved (Instruction.not_receiver (lexical.receivers _ _ _ _ member encoded) accesses)
      reaches fetched⟩

/-! ### A block that stores into a variable of its home -/

namespace Chronicle

/-- The chronicle and the state some steps later. -/
def follow? : (count : Nat) → Chronicle × State → Option (Chronicle × State)
  | 0, told => some told
  | count + 1, (chronicle, state) =>
    state.step.bind fun after => follow? count (chronicle.next state after, after)

end Chronicle

theorem Chronicled.follow {family : MethodId → Prop} {count : Nat}
    {first last : Chronicle × State} (chronicled : Chronicled family first.1 first.2)
    (lexical : first.2.machine.heap.code.Lexical family)
    (leads : Chronicle.follow? count first = some last) :
    Chronicled family last.1 last.2 ∧
      last.2.machine.heap.code = first.2.machine.heap.code := by
  induction count generalizing first with
  | zero =>
    cases leads
    exact ⟨chronicled, rfl⟩
  | succ count inductionHypothesis =>
    obtain ⟨after, stepped, leads⟩ := Option.bind_eq_some_iff.mp leads
    have code := (State.stable_step ⟨chronicled.ready, rfl, fun _ => rfl⟩ stepped).code
    obtain ⟨later, same⟩ := inductionHypothesis (.stepped chronicled lexical stepped)
      (show after.machine.heap.code.Lexical family from code.symm ▸ lexical) leads
    exact ⟨later, same.trans code⟩

/-- What is so of every instruction of every method is so wherever one is encoded. -/
theorem Code.of_encoded {code : Code} {holds : MethodId → Instruction → Bool}
    (all : ((List.range code.methods.size).all fun index =>
      (List.range (code.methods.get ⟨index⟩).code.size).all fun offset =>
        match code.encoded ⟨index⟩ offset with
        | .ok (instruction, _) => holds ⟨index⟩ instruction
        | .error _ => true) = true)
    {method : MethodId} {offset length : Nat} {instruction : Instruction}
    (found : code.encoded method offset = .ok (instruction, length)) :
    holds method instruction = true := by
  have has : method.index < code.methods.size := has_of_encoded found
  have within := lt_size_of_decodeAt found
  have inside := List.all_eq_true.mp (List.all_eq_true.mp all _ (List.mem_range.mpr has)) offset
    (List.mem_range.mpr within)
  rw [found] at inside
  exact inside

namespace State

/-- The variables of the home: a captured local. -/
def keepingLevel : ScopeLevel := .of [] [true] false

/-- Stores one into the variable of its home. -/
def keptBlock : Method :=
  { (default : Method) with
    scope := (Scope.outermost keepingLevel).nested (.of [] [] false)
    code := ([.pushOne, .popLocal 0 1, .pushNil, .returnLocal] : List Instruction).flatMap
      Instruction.encode |>.toArray
    maxStack := 1 }

/-- Evaluates the block and answers what its variable holds then. -/
def keepingHome : Method :=
  { (default : Method) with
    scope := .outermost keepingLevel
    literals := #[.invokable (.method ⟨0⟩), .symbol ⟨0⟩]
    code := ([.pushBlock 0 true, .send 1 .one, .pop, .pushLocal 0 0, .returnLocal] :
      List Instruction).flatMap Instruction.encode |>.toArray
    maxStack := 1 }

def keepingMachine : Machine :=
  { (default : Machine) with
    heap := ((detourHeap.addMethod keptBlock).2.addMethod keepingHome).2
    config := { maxDepth := 2 } }

/-- The call of the home on its machine. -/
def keeping : State := ⟨keepingMachine, .call ⟨.method ⟨1⟩, .nil, .none⟩, []⟩

/-- The block is about to store into the variable of its home for the first time. -/
def storesOutwards (told : Chronicle × State) : Bool :=
  told.1.live == [1, 0] && told.1.enclosing? 1 1 == some 0 &&
    match told.2.focus with
    | .turn _ live => live.activation.method == ⟨0⟩ && live.offset == 1
    | _ => false

/-- An instruction makes blocks where they are nested only, and replaces no receiver. -/
def keepsRules (code : Code) (method : MethodId) : Instruction → Bool
  | .pushBlock literal true =>
    match code.literal? method literal with
    | some (.invokable (.method block)) =>
      decide (code.methods.Has block) &&
        (code.methods.get block).scope ==
          (code.methods.get method).scope.nested (code.methods.get block).scope.own
    | _ => true
  | instruction => !instruction.replacesReceiver

/-- Code that keeps the rules is lexical, all of it. -/
theorem lexical_of_keepsRules {code : Code}
    (levels : ∀ method, code.methods.Has method →
      ∀ level ∈ (code.methods.get method).scope.own :: (code.methods.get method).scope.outer,
        level.Placed)
    (rules : ∀ {method : MethodId} {offset length : Nat} {instruction : Instruction},
      code.encoded method offset = .ok (instruction, length) →
        keepsRules code method instruction = true) : code.Lexical fun _ => True where
  levels method _ has := levels method has
  blocks method offset literal length block found named _ := by
    have kept := rules found
    rw [keepsRules, named, Bool.and_eq_true, beq_iff_eq] at kept
    exact ⟨of_decide_eq_true kept.1, trivial, kept.2⟩
  receivers method offset instruction length _ found := by
    have kept := rules found
    unfold keepsRules at kept
    split at kept
    · rfl
    · simpa using kept
  strangers _ _ _ _ stranger := (stranger trivial).elim

theorem lexical_keeping : keepingMachine.heap.code.Lexical fun _ => True := by
  refine lexical_of_keepsRules (fun method has => ?_) (Code.of_encoded (by decide +kernel))
  have placed : ScopeLevel.Placed keepingLevel := ⟨⟨[], [true], false, rfl⟩, by decide, by decide⟩
  match method, has with
  | ⟨0⟩, _ =>
    exact List.forall_mem_cons.mpr ⟨⟨⟨[], [], false, rfl⟩, by decide, by decide⟩,
      List.forall_mem_singleton.mpr placed⟩
  | ⟨1⟩, _ => exact List.forall_mem_singleton.mpr placed
  | ⟨index + 2⟩, has =>
    have beyond : index + 2 < 2 := has
    omega

theorem chronicled_keeping : Chronicled (fun _ => True) .blank keeping := by
  have block : detourHeap.symbols.Knows keptBlock.literals := by
    intro index selector found
    cases found
  have home : detourHeap.symbols.Knows keepingHome.literals := by
    intro index selector found
    match index, found with
    | 0, found => cases found
    | 1, found =>
      cases found
      decide +kernel
  have first : Chronicled (fun _ => True) .blank
      (.idle { keepingMachine with heap := detourHeap }) := .first rfl rfl rfl
  exact ((first.addMethod block).addMethod home).called rfl _

theorem keptBlock_stores_outwards :
    ∃ chronicle state leg live, Chronicled (fun _ => True) chronicle state ∧
      state.focus = .turn leg live ∧ chronicle.live = [1, 0] ∧
      ∃ ready, state.Awaits ready ∧
        ready.Accesses chronicle leg live 4 0 ⟨.pop, .local, 0, 1⟩ := by
  have tells : (Chronicle.follow? 8 (.blank, keeping)).any storesOutwards = true := by
    decide +kernel
  obtain ⟨⟨chronicle, state⟩, leads, stores⟩ := (Option.any_eq_true _ _).mp tells
  obtain ⟨chronicled, code⟩ := chronicled_keeping.follow lexical_keeping leads
  unfold storesOutwards at stores
  rw [Bool.and_eq_true, Bool.and_eq_true, beq_iff_eq, beq_iff_eq] at stores
  obtain ⟨⟨twice, outwards⟩, turns⟩ := stores
  split at turns
  · rename_i leg live focus
    rw [Bool.and_eq_true, beq_iff_eq, beq_iff_eq] at turns
    obtain ⟨method, offset⟩ := turns
    have explains := variables_are_lexical chronicled (code ▸ lexical_keeping)
    have methods : state.machine.heap.methods = keepingMachine.heap.methods :=
      congrArg Code.methods code
    obtain ⟨ready, awaits, -, accesses⟩ := explains.accesses leg live (.popLocal 0 1) 3
      ⟨.pop, .local, 0, 1⟩ [] [true] false 1 0 focus trivial
      (by rw [code, method, offset]; rfl) rfl (by rw [methods, method]; rfl)
      (.inr ⟨true, rfl, .inr rfl⟩) (by rw [twice]; rfl) outwards
    rw [offset] at accesses
    exact ⟨chronicle, state, leg, live, chronicled, focus, twice, ready, awaits, accesses⟩
  · cases turns

end State

end ObjectMachine
