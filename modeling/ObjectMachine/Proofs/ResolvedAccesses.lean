/-
This file says which accesses that have been resolved can be carried out. An access is resolved
against the scope that declares the variable and no other one; the context is found by way of
the blocks in between, each of which holds a context only if the activation that made it has
one. So an access is carried out exactly if every scope that it passes has a context.
-/

import ObjectMachine.Proofs.LexicalVariables

namespace ObjectMachine

/-! ### Rules -/

/-- No block of the family is made without the context of the activation that makes it. -/
def Code.Captures (family : MethodId → Prop) (code : Code) : Prop :=
  ∀ method offset literal length block,
    code.encoded method offset = .ok (.pushBlock literal false, length) →
    code.literal? method literal = some (.invokable (.method block)) → ¬family block

/-- Code captures if more code does. -/
theorem Code.Captures.of_kept {family : MethodId → Prop} {before after : Code}
    (captures : after.Captures family)
    (kept : ∀ method, before.methods.Has method →
      after.methods.get method = before.methods.get method) : before.Captures family := by
  intro method offset literal length block encoded found
  have same := kept method (has_of_encoded encoded)
  refine captures method offset literal length block ?_ ?_
  · rw [Code.encoded, same]
    exact encoded
  · rw [Code.literal?, same]
    exact found

/-- Every scope between the own one and the one at a level has a context. -/
def Scope.Passes (scope : Scope) (level : Nat) : Prop :=
  ∀ between ∈ scope.outer.take (level - 1), between.innerSize ≠ 0

instance (scope : Scope) (level : Nat) : Decidable (scope.Passes level) :=
  inferInstanceAs (Decidable (∀ between ∈ _, _))

/-- Nothing is between an access and its own scope or the next one. -/
theorem Scope.passes_near (scope : Scope) {level : Nat} (near : level ≤ 1) :
    scope.Passes level := by
  rw [Passes, Nat.sub_eq_zero_of_le near]
  intro between member
  cases member

theorem Scope.passes_next {inner outer : Scope} (nested : inner.outer = outer.own :: outer.outer)
    (level : Nat) :
    inner.Passes (level + 2) ↔ outer.own.innerSize ≠ 0 ∧ outer.Passes (level + 1) := by
  rw [Passes, nested]
  exact List.forall_mem_cons

/-! ### Blocks and their makers -/

namespace Chronicle

/-- An activation of the family has the scope that its method says. -/
structure Known (family : MethodId → Prop) (chronicle : Chronicle) (scene : Scene)
    (serial : Nat) : Prop where
  recent : serial < chronicle.started
  family : family (chronicle.chapter serial).method
  has : scene.methods.Has (chronicle.chapter serial).method
  scope : (scene.methods.get (chronicle.chapter serial).method).scope =
    (chronicle.chapter serial).scope

/-- An activation has made a block, which holds its context and has the scope next to its own. -/
structure Makes (family : MethodId → Prop) (chronicle : Chronicle) (scene : Scene)
    (maker : Nat) (block : Block) : Prop where
  known : chronicle.Known family scene maker
  context : block.context = (chronicle.chapter maker).context
  has : scene.methods.Has block.method
  nested : (scene.methods.get block.method).scope.outer =
    (chronicle.chapter maker).scope.own :: (chronicle.chapter maker).scope.outer

/-- Every block of the family has its maker. -/
def Rooted (family : MethodId → Prop) (chronicle : Chronicle) (scene : Scene) : Prop :=
  ∀ block, scene.blocks.Has block → family (scene.blocks.get block).method →
    ∃ maker, chronicle.maker block = some maker ∧
      chronicle.Makes family scene maker (scene.blocks.get block)

/--
One activation is a number of levels further out than another one: the block that is evaluated
there was made in it, or further in.
-/
inductive Outwards (chronicle : Chronicle) (scene : Scene) : (serial levels target : Nat) → Prop
  | itself {serial : Nat} : Outwards chronicle scene serial 0 serial
  | block {serial maker levels target : Nat} {block : BlockId}
    (receives : (chronicle.chapter serial).receiver = .block block)
    (has : scene.blocks.Has block)
    (evaluates : (scene.blocks.get block).method = (chronicle.chapter serial).method)
    (made : chronicle.maker block = some maker)
    (outer : Outwards chronicle scene maker levels target) :
    Outwards chronicle scene serial (levels + 1) target

/-- Methods stay, and so does all that is known of activations but their variables. -/
structure Keeps (before after : Chronicle) (scene later : Scene) : Prop where
  started : before.started ≤ after.started
  chapters : ∀ serial, serial < before.started →
    ∃ memory, after.chapter serial = { before.chapter serial with memory }
  methods : ∀ method, scene.methods.Has method →
    later.methods.Has method ∧ later.methods.get method = scene.methods.get method

section

variable {family : MethodId → Prop} {chronicle before after : Chronicle} {scene later : Scene}
  {serial : Nat} {block : Block} {deed : Deed}

theorem Known.keep (known : before.Known family scene serial)
    (keeps : before.Keeps after scene later) : after.Known family later serial := by
  obtain ⟨recent, kin, has, scope⟩ := known
  obtain ⟨memory, same⟩ := keeps.chapters serial recent
  obtain ⟨stays, method⟩ := keeps.methods _ has
  refine ⟨Nat.lt_of_lt_of_le recent keeps.started, ?_, ?_, ?_⟩ <;> rw [same]
  · exact kin
  · exact stays
  · exact (congrArg Method.scope method).trans scope

theorem Makes.keep {maker : Nat} (makes : before.Makes family scene maker block)
    (keeps : before.Keeps after scene later) : after.Makes family later maker block := by
  obtain ⟨known, context, has, nested⟩ := makes
  obtain ⟨memory, same⟩ := keeps.chapters maker known.recent
  obtain ⟨stays, method⟩ := keeps.methods _ has
  refine ⟨known.keep keeps, ?_, stays, ?_⟩ <;> rw [same]
  · exact context
  · rw [method]
    exact nested

theorem Rooted.keep (rooted : before.Rooted family scene)
    (keeps : before.Keeps after scene later) (blocks : later.blocks = scene.blocks)
    (makers : after.maker = before.maker) : after.Rooted family later := by
  intro block has member
  rw [blocks] at has member ⊢
  obtain ⟨maker, known, makes⟩ := rooted block has member
  exact ⟨maker, makers ▸ known, makes.keep keeps⟩

theorem keeps_perform (chronicle : Chronicle) (scene : Scene) (deed : Deed) :
    chronicle.Keeps (chronicle.perform scene deed) scene (deed.scene scene) where
  started := Nat.le_of_eq started_perform.symm
  chapters serial _ := chronicle.chapter_perform scene deed serial
  methods method has := by
    rw [Deed.methods_scene]
    exact ⟨has, rfl⟩

/-- One deed; what makes a block of the family is known. -/
theorem Rooted.perform (rooted : chronicle.Rooted family scene)
    (makes : ∀ block, deed = .makeBlock block → family block.method →
      ∃ maker, chronicle.live.head? = some maker ∧ chronicle.Makes family scene maker block) :
    (chronicle.perform scene deed).Rooted family (deed.scene scene) := by
  cases deed with
  | makeBlock made =>
    intro block has member
    rw [show ((Deed.makeBlock made).scene scene).blocks = scene.blocks.add made from rfl]
      at has member ⊢
    by_cases new : block = scene.blocks.next
    · subst new
      rw [Table.get_add_next] at member ⊢
      obtain ⟨maker, innermost, makes⟩ := makes made rfl member
      exact ⟨maker, (if_pos rfl).trans innermost, makes.keep (keeps_perform ..)⟩
    · rw [Table.get_add_of_ne _ _ _ new] at member ⊢
      obtain ⟨maker, known, makes⟩ := rooted block (Table.has_of_has_add has new) member
      exact ⟨maker, (if_neg new).trans known, makes.keep (keeps_perform ..)⟩
  | _ => exact rooted.keep (keeps_perform ..) rfl rfl

end

section

variable {family : MethodId → Prop} {chronicle : Chronicle} {before after : State}

/-- The innermost activation makes the block, by the rules. -/
theorem Follows.makes (follows : chronicle.Follows family before.scene before.homes)
    (coherent : before.machine.heap.Coherent)
    (lexical : before.machine.heap.code.Lexical family)
    (captures : before.machine.heap.code.Captures family) {block : Block}
    (makes : before.deed = .makeBlock block) (member : family block.method) :
    ∃ maker, chronicle.live.head? = some maker ∧
      chronicle.Makes family before.scene maker block := by
  obtain ⟨live, instruction, length, innermost, stands, does⟩ :=
    State.stands_of_deed coherent (by rw [makes]; exact fun same => by cases same)
  obtain ⟨literal, captured, rfl, found, holds⟩ := Activation.makesBlock (does.trans makes)
  have encoded := stands.of_pushBlock
  cases captured with
  | false => exact (captures _ _ _ _ _ encoded found member).elim
  | true =>
    obtain ⟨has, kin, scope⟩ := lexical.blocks _ _ _ _ _ encoded found member
    obtain ⟨maker, first, lives⟩ := follows.accounts.head innermost
    have method : (chronicle.chapter maker).method = live.activation.method := lives.method
    refine ⟨maker, first, ⟨follows.recent maker (List.mem_of_head? first), ?_, ?_, ?_⟩, ?_, has, ?_⟩
    · rw [method]
      exact kin
    · rw [method]
      exact Code.has_of_encoded encoded
    · rw [method]
      exact lives.scope
    · exact holds.trans (lives.framed.trans lives.context.symm)
    · rw [← lives.scope]
      exact congrArg Scope.outer scope

/-- Blocks have their makers from one state to the next. -/
theorem Rooted.step (rooted : chronicle.Rooted family before.scene)
    (makes : ∀ block, before.deed = .makeBlock block → family block.method →
      ∃ maker, chronicle.live.head? = some maker ∧
        chronicle.Makes family before.scene maker block)
    (goes : before.Goes after) : (chronicle.next before after).Rooted family after.scene := by
  have performed := rooted.perform makes
  cases chronicle.advances goes with
  | perform scene _ next =>
    rw [next, scene]
    exact performed
  | begin _ scene _ next =>
    rw [next, scene]
    refine rooted.keep ⟨Nat.le_succ _, fun serial recent => ?_, fun method has => ?_⟩
      (Scene.Links.blocks_started ..) rfl
    · exact ⟨(chronicle.chapter serial).memory, chapter_begin_of_ne (Nat.ne_of_lt recent)⟩
    · rw [Live.methods_started]
      exact ⟨has, rfl⟩
  | reject scene _ next =>
    rw [next, scene]
    refine rooted.keep ⟨Nat.le_refl _, fun serial _ => ⟨_, rfl⟩, fun method has => ?_⟩
      (Scene.Links.blocks_started ..) rfl
    rw [Live.methods_started]
    exact ⟨has, rfl⟩
  | close _ scene next =>
    rw [next, scene]
    refine performed.keep ⟨Nat.le_refl _, fun serial _ => ⟨_, rfl⟩, fun method has => ?_⟩
      (Scene.blocks_finish ..) rfl
    rw [Scene.methods_finish]
    exact ⟨has, rfl⟩

end

end Chronicle

/-- Blocks have their makers in every state. -/
theorem Chronicled.rooted {family : MethodId → Prop} {chronicle : Chronicle} {state : State}
    (chronicled : Chronicled family chronicle state)
    (captures : state.machine.heap.code.Captures family) :
    chronicle.Rooted family state.scene := by
  induction chronicled with
  | @first machine _ _ blocks =>
    intro block has
    rw [show (State.idle machine).scene.blocks = machine.heap.blocks from rfl, Table.Has,
      blocks] at has
    exact (Nat.not_lt_zero _ has).elim
  | hosted _ _ hosted _ blocks _ inductionHypothesis =>
    refine (inductionHypothesis (captures.of_kept fun _ has =>
      (methods_of_hosted hosted has).2)).keep
        ⟨Nat.le_refl _, fun serial _ => ⟨_, rfl⟩, fun _ => methods_of_hosted hosted⟩ blocks rfl
  | called _ _ _ inductionHypothesis => exact inductionHypothesis captures
  | stepped chronicled lexical stepped inductionHypothesis =>
    have code := (State.stable_step ⟨chronicled.ready, rfl, fun _ => rfl⟩ stepped).code
    have captures := code ▸ captures
    exact (inductionHypothesis captures).step
      (fun _ => chronicled.follows.makes chronicled.ready.coherent lexical captures)
      (State.goes_step stepped)

/-! ### Going outwards -/

/-- What a walk ends in that comes to a block without a context. -/
def Abrupt.noContext : Abrupt := .error (.wrongKind "block with a context" .nil)

namespace Chronicle

section

variable {family : MethodId → Prop} {chronicle : Chronicle} {scene : Scene}
  {serial levels target : Nat}

/-- What evaluates a block of its own method is nested in what has made the block. -/
theorem Rooted.nested (rooted : chronicle.Rooted family scene)
    (known : chronicle.Known family scene serial) {maker : Nat} {block : BlockId}
    (has : scene.blocks.Has block)
    (evaluates : (scene.blocks.get block).method = (chronicle.chapter serial).method)
    (made : chronicle.maker block = some maker) :
    chronicle.Makes family scene maker (scene.blocks.get block) ∧
      (chronicle.chapter serial).scope.outer =
        (chronicle.chapter maker).scope.own :: (chronicle.chapter maker).scope.outer := by
  obtain ⟨other, same, makes⟩ := rooted block has (evaluates ▸ known.family)
  cases made.symm.trans same
  refine ⟨makes, ?_⟩
  rw [← known.scope, ← evaluates, makes.nested]

/-- An activation further out is one of the family, and its level that of the scope. -/
theorem Rooted.outwards (rooted : chronicle.Rooted family scene)
    (known : chronicle.Known family scene serial)
    (outwards : chronicle.Outwards scene serial levels target) :
    chronicle.Known family scene target ∧
      (chronicle.chapter serial).scope.level? levels =
        some (chronicle.chapter target).scope.own := by
  induction outwards with
  | itself => exact ⟨known, rfl⟩
  | block receives has evaluates made outer inductionHypothesis =>
    obtain ⟨makes, nested⟩ := rooted.nested known has evaluates made
    obtain ⟨reached, declares⟩ := inductionHypothesis makes.known
    refine ⟨reached, ?_⟩
    rw [Scope.level?, List.getElem?_cons_succ, nested]
    exact declares

end

section

variable {family : MethodId → Prop} {chronicle : Chronicle} {machine : Machine}
  {homes : List Home} {serial target : Nat}

/-- The context of a block keeps the receiver of the activation that made the block. -/
theorem Follows.outerReceiver (follows : chronicle.Follows family machine.heap.scene homes)
    {maker : Nat} {block : BlockId}
    (makes : chronicle.Makes family machine.heap.scene maker
      (machine.heap.scene.blocks.get block)) :
    Frame.outerReceiver? machine.heap block =
      (chronicle.chapter maker).context.map fun _ => (chronicle.chapter maker).receiver := by
  have captured : (machine.heap.blocks.get block).context =
      (chronicle.chapter maker).context := makes.context
  rw [Frame.outerReceiver?, Heap.blockContext?, captured]
  cases anchored : (chronicle.chapter maker).context with
  | none => rfl
  | some context =>
    have slot : (machine.heap.contexts.get context).slots[0]? =
        some (chronicle.chapter maker).receiver :=
      ((follows.owned anchored).2.2 makes.known.family).receiver
    rw [Option.map_some, Option.map_some, Array.getD_eq_getD_getElem?, slot]
    rfl

/--
Going outwards from block to block leads to one that holds the context of an activation further
out, if the scopes in between have contexts.
-/
theorem Rooted.blockOutFrom (rooted : chronicle.Rooted family machine.heap.scene)
    (follows : chronicle.Follows family machine.heap.scene homes) {levels : Nat} {block : BlockId}
    (known : chronicle.Known family machine.heap.scene serial)
    (receives : (chronicle.chapter serial).receiver = .block block)
    (outwards : chronicle.Outwards machine.heap.scene serial (levels + 1) target) :
    ∃ outer, (machine.heap.blocks.get outer).context = (chronicle.chapter target).context ∧
      Frame.blockOutFrom levels block machine =
        if (chronicle.chapter serial).scope.Passes (levels + 1) then .ok outer machine
        else .error .noContext machine := by
  induction levels generalizing serial block with
  | zero =>
    cases outwards with
    | block same has evaluates made outer =>
      cases receives.symm.trans same
      cases outer
      obtain ⟨makes, -⟩ := rooted.nested known has evaluates made
      exact ⟨block, makes.context, (if_pos (Scope.passes_near _ (Nat.le_refl 1))).symm⟩
  | succ levels inductionHypothesis =>
    cases outwards with
    | @block _ maker _ _ _ same has evaluates made outer =>
      cases receives.symm.trans same
      obtain ⟨makes, nested⟩ := rooted.nested known has evaluates made
      have passes := Scope.passes_next nested levels
      -- The maker is not the last one, so it evaluates a block too.
      obtain ⟨next, evaluated⟩ :
          ∃ next, (chronicle.chapter maker).receiver = .block next := by
        cases outer with
        | block receives => exact ⟨_, receives⟩
      obtain ⟨outer, anchored, walked⟩ := inductionHypothesis makes.known evaluated outer
      refine ⟨outer, anchored, ?_⟩
      have sound := follows.sound makes.known.recent makes.known.family
      have read : Engine.heapValue (Frame.outerReceiver? · block) machine =
          .ok ((chronicle.chapter maker).context.map fun _ => .block next) machine :=
        congrArg (EStateM.Result.ok · machine) (evaluated ▸ follows.outerReceiver makes)
      rw [Frame.blockOutFrom, Engine.bind_of_ok read]
      cases anchor : (chronicle.chapter maker).context with
      | none =>
        rw [if_neg fun all => (passes.mp all).1 (sound.opened.mp anchor)]
        rfl
      | some context =>
        have opened : (chronicle.chapter maker).scope.own.innerSize ≠ 0 := fun closed =>
          Option.some_ne_none _ (anchor.symm.trans (sound.opened.mpr closed))
        refine Eq.trans walked ?_
        simp only [passes, opened, ne_eq, not_false_eq_true, true_and]

/-- The context of an activation further out is found if the scopes in between have contexts. -/
theorem Rooted.contextAt (rooted : chronicle.Rooted family machine.heap.scene)
    (follows : chronicle.Follows family machine.heap.scene homes) {home : Home} {level : Nat}
    {context : ContextId}
    (lives : (chronicle.chapter serial).Lives family machine.heap.scene home)
    (known : chronicle.Known family machine.heap.scene serial)
    (outwards : chronicle.Outwards machine.heap.scene serial level target)
    (anchored : (chronicle.chapter target).context = some context) :
    home.frame.contextAt level machine =
      if (chronicle.chapter serial).scope.Passes level then .ok context machine
      else .error .noContext machine := by
  cases level with
  | zero =>
    cases outwards
    rw [Frame.contextAt, if_pos rfl, lives.framed, ← lives.context, anchored,
      if_pos (Scope.passes_near _ (Nat.zero_le 1))]
    rfl
  | succ levels =>
    have receiver := (lives.slots (lives.method ▸ known.family)).receiver
    obtain ⟨block, receives⟩ : ∃ block, (chronicle.chapter serial).receiver = .block block := by
      cases outwards with
      | block receives => exact ⟨_, receives⟩
    have evaluates : home.frame.receiver = .block block := by
      rw [Frame.receiver, Array.getD_eq_getD_getElem?, receiver, receives]
      rfl
    obtain ⟨outer, captured, walked⟩ := rooted.blockOutFrom follows known receives outwards
    have walked : home.frame.blockAt (levels + 1) machine =
        if (chronicle.chapter serial).scope.Passes (levels + 1) then .ok outer machine
        else .error .noContext machine := by
      rw [Frame.blockAt, evaluates]
      exact walked
    rw [Frame.contextAt, if_neg (Nat.succ_ne_zero levels)]
    by_cases passes : (chronicle.chapter serial).scope.Passes (levels + 1)
    · rw [if_pos passes] at walked ⊢
      have read : Engine.heapValue (fun heap => (heap.blocks.get outer).context) machine =
          .ok (some context) machine :=
        congrArg (EStateM.Result.ok · machine) (captured.trans anchored)
      rw [Engine.bind_of_ok walked, Engine.bind_of_ok read]
      rfl
    · rw [if_neg passes] at walked ⊢
      exact Engine.bind_of_error walked

variable {home : Home} {access : Access} {reached : VariableAccess}

/-- The slot that a resolved access reaches holds what the variable holds further out. -/
theorem Rooted.finds (rooted : chronicle.Rooted family machine.heap.scene)
    (follows : chronicle.Follows family machine.heap.scene homes)
    (lives : (chronicle.chapter serial).Lives family machine.heap.scene home)
    (known : chronicle.Known family machine.heap.scene serial)
    (outwards : chronicle.Outwards machine.heap.scene serial access.level.toNat target)
    (resolved : (chronicle.chapter serial).scope.resolve? access.kind access.index access.level =
      some reached) (passes : (chronicle.chapter serial).scope.Passes access.level.toNat) :
    home.frame.Finds machine reached
      ((chronicle.chapter target).value access.kind access.index.toNat) := by
  obtain ⟨further, declares⟩ := rooted.outwards known outwards
  refine follows.finds_of_walk lives known.recent (lives.method ▸ known.family) further.recent
    further.family declares (fun own => ?_) (fun context anchored => ?_) resolved
  · rw [own] at outwards
    cases outwards
    rfl
  · exact (rooted.contextAt follows lives known outwards anchored).trans (if_pos passes)

/-- A resolved access that goes further out goes to an activation that has a context. -/
theorem Rooted.reaches_outer (rooted : chronicle.Rooted family machine.heap.scene)
    (follows : chronicle.Follows family machine.heap.scene homes)
    (known : chronicle.Known family machine.heap.scene serial)
    (outwards : chronicle.Outwards machine.heap.scene serial access.level.toNat target)
    (resolved : (chronicle.chapter serial).scope.resolve? access.kind access.index access.level =
      some reached) (outer : access.level ≠ 0) :
    ∃ slot context, reached = .outerInner slot access.level ∧
      (chronicle.chapter target).context = some context := by
  obtain ⟨further, declares⟩ := rooted.outwards known outwards
  rw [Scope.resolve?_eq] at resolved
  obtain ⟨place, placed, reach⟩ := Option.bind_eq_some_iff.mp resolved
  cases place with
  | frame slot => cases (if_neg outer).symm.trans reach
  | inner slot =>
    obtain ⟨context, anchored, -⟩ :=
      follows.context_holds further.recent further.family declares placed
    rw [VariablePlace.from?, if_neg outer] at reach
    cases reach
    exact ⟨_, context, rfl, anchored⟩

end

end Chronicle

/-! ### Turns -/

namespace Activation

variable {activation : Activation} {machine : Machine} {offset : Nat} {usage : Usage}
  {resolution : Instruction}

/-- An access that finds its slot goes on, if there is room on the stack or something on it. -/
theorem begin_of_finds {reached : VariableAccess} {value : Value}
    (reaches : Access.reach? usage reached = some resolution)
    (finds : activation.frame.Finds machine reached value) :
    (∃ next after,
      activation.begin offset resolution machine = .ok (.done .next next) after) ∨
    activation.begin offset resolution machine =
      .error (.stackFault activation.method) machine := by
  cases usage with
  | push =>
    cases reaches
    rw [activation.begin_push offset finds]
    split
    · exact .inl ⟨_, _, rfl⟩
    · exact .inr rfl
  | pop =>
    cases reaches
    rw [begin_pop]
    cases popped : activation.stack.pop? with
    | none => exact .inr (Engine.bind_of_error (pop_of_none popped))
    | some pair =>
      rw [Engine.bind_of_ok (pop_of_some popped), Engine.bind_of_ok (Frame.store_of_finds finds _)]
      exact .inl ⟨_, _, rfl⟩
  | clear =>
    rw [begin_clear reaches, Engine.bind_of_ok (Frame.store_of_finds finds _)]
    exact .inl ⟨_, _, rfl⟩

/-- An access that finds no context fails, unless there was nothing to pop before that. -/
theorem begin_of_misses {slot level : UInt8} {abrupt : Abrupt}
    (reaches : Access.reach? usage (.outerInner slot level) = some resolution)
    (failed : activation.frame.contextAt level.toNat machine = .error abrupt machine) :
    activation.begin offset resolution machine =
      .error (if usage = .pop ∧ activation.stack.pop? = none then .stackFault activation.method
        else abrupt) machine := by
  cases usage with
  | push =>
    cases reaches
    rw [if_neg fun both => by cases both.1]
    simp only [VariableAccess.push, begin, execute, bind_assoc]
    exact Engine.bind_of_error failed
  | pop =>
    cases reaches
    rw [begin_pop]
    cases popped : activation.stack.pop? with
    | none => exact (Engine.bind_of_error (pop_of_none popped)).trans (by rw [if_pos ⟨rfl, rfl⟩])
    | some pair =>
      have stored : activation.frame.store pair.1 (.outerInner slot level) machine =
          .error abrupt machine := Engine.bind_of_error failed
      rw [Engine.bind_of_ok (pop_of_some popped), if_neg fun both => by cases both.2]
      exact Engine.bind_of_error stored
  | clear => cases reaches

end Activation

namespace State

/-- The turn goes on behind its instruction, or ends because the stack is full or empty. -/
def Proceeds (state : State) (leg : Leg) (live : Live) (next : Nat) : Prop :=
  (∃ activation machine, state.step = some
    ⟨machine, .turn leg { live with activation, offset := next }, state.waiting⟩) ∨
  state.step =
    some (abandoned live state.waiting (.stackFault live.activation.method) state.machine)

/--
A resolved access is carried out if the scopes that it passes have contexts: it finds the
context of the activation further out, and there the variable. Otherwise it ends in an error.
-/
structure CarriesOut (state : State) (chronicle : Chronicle) (leg : Leg) (live : Live)
    (next target : Nat) (access : Access) (reached : VariableAccess) : Prop where
  passes :
    (state.machine.heap.methods.get live.activation.method).scope.Passes access.level.toNat →
      (access.level ≠ 0 → ∃ context, (chronicle.chapter target).context = some context ∧
        live.activation.frame.contextAt access.level.toNat state.machine =
          .ok context state.machine) ∧
      live.activation.frame.Finds state.machine reached
        ((chronicle.chapter target).value access.kind access.index.toNat) ∧
      state.Proceeds leg live next
  misses :
    ¬(state.machine.heap.methods.get live.activation.method).scope.Passes access.level.toNat →
      live.activation.frame.contextAt access.level.toNat state.machine =
        .error .noContext state.machine ∧
      state.step = some (abandoned live state.waiting
        (if access.usage = .pop ∧ live.activation.stack.pop? = none then
          .stackFault live.activation.method else .noContext) state.machine)

end State

/-- A turn that reads a resolved access carries it out, or misses a context. -/
theorem Chronicle.Rooted.carriesOut {family : MethodId → Prop} {chronicle : Chronicle}
    {state : State} {leg : Leg} {live : Live} {serial target next : Nat} {access : Access}
    {reached : VariableAccess} {resolution : Instruction}
    (rooted : chronicle.Rooted family state.scene)
    (follows : chronicle.Follows family state.scene state.homes)
    (turns : state.focus = .turn leg live) (member : family live.activation.method)
    (has : state.scene.methods.Has live.activation.method)
    (innermost : chronicle.live.head? = some serial)
    (outwards : chronicle.Outwards state.scene serial access.level.toNat target)
    (resolved : (state.machine.heap.methods.get live.activation.method).scope.resolve? access.kind
      access.index access.level = some reached)
    (reaches : Access.reach? access.usage reached = some resolution)
    (fetched : leg.fetch live.activation live.offset state.machine =
      .ok ⟨resolution, next⟩ state.machine) :
    state.CarriesOut chronicle leg live next target access reached := by
  obtain ⟨_, first, lives⟩ := follows.runs turns
  cases innermost.symm.trans first
  have method : (chronicle.chapter serial).method = live.activation.method := lives.method
  have scope : (state.machine.heap.methods.get live.activation.method).scope =
      (chronicle.chapter serial).scope := lives.scope
  have known : chronicle.Known family state.machine.heap.scene serial := by
    refine ⟨follows.recent serial (List.mem_of_head? innermost), ?_, ?_, ?_⟩ <;> rw [method]
    · exact member
    · exact has
    · exact scope
  have notSend := Access.not_send reaches
  rw [scope] at resolved
  refine ⟨fun passes => ?_, fun misses => ?_⟩
  · rw [scope] at passes
    have finds : live.activation.frame.Finds state.machine reached _ :=
      rooted.finds follows lives known outwards resolved passes
    refine ⟨fun outer => ?_, finds, ?_⟩
    · obtain ⟨_, context, -, anchored⟩ :=
        rooted.reaches_outer follows known outwards resolved outer
      exact ⟨context, anchored,
        (rooted.contextAt follows lives known outwards anchored).trans (if_pos passes)⟩
    · rcases Activation.begin_of_finds reaches finds with ⟨activation, after, begun⟩ | failed
      · exact .inl ⟨activation, after,
          State.step_of_ok turns (Leg.advance_of_next fetched notSend begun)⟩
      · exact .inr (State.step_of_error turns (Leg.advance_of_error fetched notSend failed))
  · rw [scope] at misses
    have outer : access.level ≠ 0 := fun own =>
      misses (own ▸ Scope.passes_near _ (Nat.zero_le 1))
    obtain ⟨slot, context, rfl, anchored⟩ :=
      rooted.reaches_outer follows known outwards resolved outer
    have failed : live.activation.frame.contextAt access.level.toNat state.machine = _ :=
      (rooted.contextAt follows lives known outwards anchored).trans (if_neg misses)
    exact ⟨failed, State.step_of_error turns
      (Leg.advance_of_error fetched notSend (Activation.begin_of_misses reaches failed))⟩

/-- An access that can be resolved is carried out, or misses a context. -/
theorem Chronicled.carriesOut {family : MethodId → Prop} {chronicle : Chronicle} {state : State}
    (chronicled : Chronicled family chronicle state)
    (captures : state.machine.heap.code.Captures family) {leg : Leg} {live : Live}
    {instruction : Instruction} {length serial target : Nat} {access : Access}
    {reached : VariableAccess} (turns : state.focus = .turn leg live)
    (member : family live.activation.method)
    (encoded : state.machine.heap.code.encoded live.activation.method live.offset =
      .ok (instruction, length))
    (accesses : instruction.access? = some access)
    (resolved : (state.machine.heap.methods.get live.activation.method).scope.resolve? access.kind
      access.index access.level = some reached)
    (innermost : chronicle.live.head? = some serial)
    (outwards : chronicle.Outwards state.scene serial access.level.toNat target) :
    ∃ ready, state.Awaits ready ∧
      (ready = state ∨ state.step = some ready ∧ chronicle.next state ready = chronicle) ∧
      ready.CarriesOut chronicle leg live (live.offset + length) target access reached := by
  obtain ⟨ready, resolution, awaits, steps, homes, reaches, fetched⟩ :=
    chronicled.resolves turns encoded accesses resolved
  refine ⟨ready, awaits, steps, ?_⟩
  obtain ⟨states, learned⟩ := awaits.machine
  have scene : ready.scene = state.scene := by
    rw [State.scene, learned]
    rfl
  refine Chronicle.Rooted.carriesOut (scene ▸ chronicled.rooted captures)
    (scene ▸ homes ▸ chronicled.follows) (awaits.focus.trans turns) member ?_ innermost
    (scene ▸ outwards) ?_ reaches fetched
  · rw [scene]
    exact Code.has_of_encoded encoded
  · rw [learned]
    exact resolved

/-- What resolving an access in a state has to do with carrying it out. -/
structure Chronicle.Resolves (family : MethodId → Prop) (chronicle : Chronicle) (state : State) :
    Prop where
  /-- Every block of the family was made by an activation that its scope is nested in. -/
  rooted : chronicle.Rooted family state.scene
  /-- An access that has no resolution is an error that says so. -/
  rejected : ∀ leg live instruction length access, state.focus = .turn leg live →
    state.machine.heap.code.encoded live.activation.method live.offset =
      .ok (instruction, length) →
    instruction.access? = some access →
    (state.machine.heap.methods.get live.activation.method).scope.resolve? access.kind
      access.index access.level = none →
      state.step = some (State.abandoned live state.waiting
        (.error (.unresolvedVariable
          (state.machine.heap.signatureText (.method live.activation.method)) live.offset))
        state.machine)
  /-- Any other access is carried out if the scopes that it passes have contexts. -/
  resolved : ∀ leg live instruction length access reached serial target,
    state.focus = .turn leg live → family live.activation.method →
    state.machine.heap.code.encoded live.activation.method live.offset =
      .ok (instruction, length) →
    instruction.access? = some access →
    (state.machine.heap.methods.get live.activation.method).scope.resolve? access.kind
      access.index access.level = some reached →
    chronicle.live.head? = some serial →
    chronicle.Outwards state.scene serial access.level.toNat target →
      ∃ ready, state.Awaits ready ∧
        (ready = state ∨ state.step = some ready ∧ chronicle.next state ready = chronicle) ∧
        ready.CarriesOut chronicle leg live (live.offset + length) target access reached

/--
Take methods with nested blocks whose scopes are nested in the same way, their blocks being made
to hold contexts, and any program that runs them among others, with whatever a host does between
two runs. An access that is not resolved is an error that says so. One that is resolved, to a
variable of an activation some lexical levels out, is carried out exactly if all scopes in
between have contexts: then the context of that activation is found, and there the variable;
else the walk outwards ends at a block without a context, which is a type error.
-/
theorem resolved_accesses_pass_contexts {family : MethodId → Prop} {chronicle : Chronicle}
    {state : State} (chronicled : Chronicled family chronicle state)
    (captures : state.machine.heap.code.Captures family) : chronicle.Resolves family state where
  rooted := chronicled.rooted captures
  rejected leg live instruction length access turns encoded accesses unresolved := by
    have unresolved : Activation.resolvedAccess?
        (state.machine.heap.methods.get live.activation.method).scope instruction = none := by
      rw [Activation.resolvedAccess?_eq _ accesses, unresolved]
      rfl
    obtain ⟨node, fetched, -, same | resolved⟩ :=
      leg.fetch_of_encoded chronicled.ready.coherent encoded
    · have notSend (literal : UInt8) (arity : Arity) :
          node.instruction ≠ .send literal arity := by
        rw [same]
        rintro rfl
        cases accesses
      refine State.step_of_error turns (Leg.advance_of_error fetched notSend ?_)
      rw [same]
      exact Activation.begin_of_unresolved accesses unresolved
    · rw [Code.resolution?_of_access accesses] at resolved
      cases unresolved.symm.trans resolved
  resolved leg live instruction length access reached serial target turns member encoded accesses
      resolved innermost outwards :=
    chronicled.carriesOut captures turns member encoded accesses resolved innermost outwards

/-! ### A block in a block -/

namespace State

/-- The variables of a block: none. -/
def blockLevel (needsContext : Bool) : ScopeLevel := .of [] [] needsContext

/-- The scope of a block of the home. -/
def middleScope (needsContext : Bool) : Scope :=
  (Scope.outermost keepingLevel).nested (blockLevel needsContext)

/-- Reads the variable of the home, from two levels further in. -/
def readingBlock (needsContext : Bool) : Method :=
  { (default : Method) with
    scope := (middleScope needsContext).nested (blockLevel false)
    code := ([.pushLocal 0 2, .returnLocal] : List Instruction).flatMap
      Instruction.encode |>.toArray
    maxStack := 1 }

/-- Evaluates a block. -/
def evaluating (scope : Scope) (block : MethodId) : Method :=
  { (default : Method) with
    scope
    literals := #[.invokable (.method block), .symbol ⟨0⟩]
    code := ([.pushBlock 0 true, .send 1 .one, .returnLocal] : List Instruction).flatMap
      Instruction.encode |>.toArray
    maxStack := 1 }

/-- A home, a block of the home and a block of that one. -/
def nestingMachine (needsContext : Bool) : Machine :=
  { (default : Machine) with
    heap := (((detourHeap.addMethod (readingBlock needsContext)).2.addMethod
      (evaluating (middleScope needsContext) ⟨0⟩)).2.addMethod
        (evaluating (.outermost keepingLevel) ⟨1⟩)).2
    config := { maxDepth := 4 } }

/-- The call of the home on its machine. -/
def nesting (needsContext : Bool) : State :=
  ⟨nestingMachine needsContext, .call ⟨.method ⟨2⟩, .nil, .none⟩, []⟩

theorem lexical_nesting (needsContext : Bool) :
    (nestingMachine needsContext).heap.code.Lexical fun _ => True := by
  refine lexical_of_keepsRules (fun method has => ?_)
    (Code.of_encoded (by cases needsContext <;> decide +kernel))
  have home : ScopeLevel.Placed keepingLevel := ⟨⟨[], [true], false, rfl⟩, by decide, by decide⟩
  have block (needsContext : Bool) : ScopeLevel.Placed (blockLevel needsContext) :=
    ⟨⟨[], [], needsContext, rfl⟩, by cases needsContext <;> decide,
      by cases needsContext <;> decide⟩
  have middle : ∀ level ∈ (middleScope needsContext).own :: (middleScope needsContext).outer,
      level.Placed :=
    List.forall_mem_cons.mpr ⟨block needsContext, List.forall_mem_singleton.mpr home⟩
  match method, has with
  | ⟨0⟩, _ => exact List.forall_mem_cons.mpr ⟨block false, middle⟩
  | ⟨1⟩, _ => exact middle
  | ⟨2⟩, _ => exact List.forall_mem_singleton.mpr home
  | ⟨index + 3⟩, has =>
    have beyond : index + 3 < 3 := has
    omega

/-- A block that is made is to hold a context. -/
def givesContext (_ : MethodId) : Instruction → Bool
  | .pushBlock _ captures => captures
  | _ => true

theorem captures_nesting (needsContext : Bool) :
    (nestingMachine needsContext).heap.code.Captures fun _ => True := by
  intro method offset literal length block found
  have captures : givesContext method (.pushBlock literal false) = true :=
    Code.of_encoded (by cases needsContext <;> decide +kernel) found
  cases captures

theorem chronicled_nesting (needsContext : Bool) :
    Chronicled (fun _ => True) .blank (nesting needsContext) := by
  have knows (scope : Scope) (block : MethodId) :
      detourHeap.symbols.Knows (evaluating scope block).literals := by
    intro index selector found
    match index, found with
    | 0, found => cases found
    | 1, found =>
      cases found
      decide +kernel
  have reading : detourHeap.symbols.Knows (readingBlock needsContext).literals := by
    intro index selector found
    cases found
  have first : Chronicled (fun _ => True) .blank
      (.idle { nestingMachine needsContext with heap := detourHeap }) := .first rfl rfl rfl
  have blocks := (first.addMethod reading).addMethod (knows (middleScope needsContext) ⟨0⟩)
  exact (blocks.addMethod (knows (.outermost keepingLevel) ⟨1⟩)).called rfl _

/-- The inner block is about to read the variable of the home for the first time. -/
def readsOutwards (told : Chronicle × State) : Bool :=
  decide (told.1.live = [2, 1, 0] ∧ told.2.scene.blocks.size = 2 ∧
    (told.1.chapter 2).receiver = .block ⟨1⟩ ∧ (told.1.chapter 1).receiver = .block ⟨0⟩ ∧
    (told.2.scene.blocks.get ⟨1⟩).method = (told.1.chapter 2).method ∧
    (told.2.scene.blocks.get ⟨0⟩).method = (told.1.chapter 1).method ∧
    told.1.maker ⟨1⟩ = some 1 ∧ told.1.maker ⟨0⟩ = some 0) &&
  match told.2.focus with
  | .turn _ live => decide (live.activation.method = ⟨0⟩ ∧ live.offset = 0)
  | _ => false

theorem nesting_reads_outwards (needsContext : Bool) :
    ∃ chronicle state leg live, Chronicled (fun _ => True) chronicle state ∧
      state.machine.heap.code = (nestingMachine needsContext).heap.code ∧
      state.focus = .turn leg live ∧ live.activation.method = ⟨0⟩ ∧ live.offset = 0 ∧
      chronicle.live = [2, 1, 0] ∧ chronicle.Outwards state.scene 2 2 0 := by
  have tells : (Chronicle.follow? 12 (.blank, nesting needsContext)).any readsOutwards = true := by
    cases needsContext <;> decide +kernel
  obtain ⟨⟨chronicle, state⟩, leads, reads⟩ := (Option.any_eq_true _ _).mp tells
  obtain ⟨chronicled, code⟩ :=
    (chronicled_nesting needsContext).follow (lexical_nesting needsContext) leads
  unfold readsOutwards at reads
  rw [Bool.and_eq_true, decide_eq_true_iff] at reads
  obtain ⟨⟨live, blocks, inner, outer, first, second, maker, home⟩, turns⟩ := reads
  split at turns
  · rename_i leg activation focus
    obtain ⟨method, offset⟩ := of_decide_eq_true turns
    have has (index : Nat) (within : index < 2) : state.scene.blocks.Has ⟨index⟩ :=
      Nat.lt_of_lt_of_eq within blocks.symm
    exact ⟨chronicle, state, leg, activation, chronicled, code, focus, method, offset, live,
      .block inner (has 1 (by decide)) first maker
        (.block outer (has 0 (by decide)) second home .itself)⟩
  · cases turns

theorem nested_block_reads_home :
    ∃ chronicle state leg live ready, Chronicled (fun _ => True) chronicle state ∧
      state.focus = .turn leg live ∧ chronicle.live = [2, 1, 0] ∧
      chronicle.Outwards state.scene 2 2 0 ∧ state.Awaits ready ∧
      live.activation.frame.Finds ready.machine (.outerInner 1 2)
        ((chronicle.chapter 0).value .local 0) ∧
      ready.Proceeds leg live 3 := by
  obtain ⟨chronicle, state, leg, live, chronicled, code, focus, method, offset, nested, outwards⟩ :=
    nesting_reads_outwards true
  have methods : state.machine.heap.methods = (nestingMachine true).heap.methods :=
    congrArg Code.methods code
  have resolves := resolved_accesses_pass_contexts chronicled (code ▸ captures_nesting true)
  obtain ⟨ready, awaits, -, carries⟩ := resolves.resolved leg live (.pushLocal 0 2) 3
    ⟨.push, .local, 0, 2⟩ (.outerInner 1 2) 2 0 focus trivial
    (by rw [code, method, offset]; rfl) rfl (by rw [methods, method]; rfl) (by rw [nested]; rfl)
    outwards
  obtain ⟨states, learned⟩ := awaits.machine
  have known : ready.machine.heap.methods = (nestingMachine true).heap.methods := by
    rw [learned]
    exact methods
  obtain ⟨-, finds, proceeds⟩ := carries.passes (by rw [known, method]; decide +kernel)
  rw [offset] at proceeds
  exact ⟨chronicle, state, leg, live, ready, chronicled, focus, nested, outwards, awaits, finds,
    proceeds⟩

/-- A block without a context in between: the access is resolved, and ends in a type error. -/
theorem nested_block_misses_home :
    ∃ chronicle state leg live ready, Chronicled (fun _ => True) chronicle state ∧
      state.machine.heap.code.Captures (fun _ => True) ∧
      state.focus = .turn leg live ∧ chronicle.live = [2, 1, 0] ∧
      chronicle.Outwards state.scene 2 2 0 ∧
      (state.machine.heap.methods.get live.activation.method).scope.resolve? .local 0 2 =
        some (.outerInner 1 2) ∧
      state.Awaits ready ∧
      live.activation.frame.contextAt 2 ready.machine =
        .error (.error (.wrongKind "block with a context" .nil)) ready.machine ∧
      ready.step = some (abandoned live ready.waiting
        (.error (.wrongKind "block with a context" .nil)) ready.machine) := by
  obtain ⟨chronicle, state, leg, live, chronicled, code, focus, method, offset, nested, outwards⟩ :=
    nesting_reads_outwards false
  have captures : state.machine.heap.code.Captures (fun _ => True) := code ▸ captures_nesting false
  have methods : state.machine.heap.methods = (nestingMachine false).heap.methods :=
    congrArg Code.methods code
  have resolved : (state.machine.heap.methods.get live.activation.method).scope.resolve?
      .local 0 2 = some (.outerInner 1 2) := by
    rw [methods, method]
    rfl
  have encoded : state.machine.heap.code.encoded live.activation.method live.offset =
      .ok (.pushLocal 0 2, 3) := by
    rw [code, method, offset]
    rfl
  have accesses : (Instruction.pushLocal 0 2).access? = some ⟨.push, .local, 0, 2⟩ := rfl
  have innermost : chronicle.live.head? = some 2 := by rw [nested]; rfl
  obtain ⟨ready, awaits, -, carries⟩ :=
    chronicled.carriesOut captures focus trivial encoded accesses resolved innermost outwards
  obtain ⟨states, learned⟩ := awaits.machine
  have known : ready.machine.heap.methods = (nestingMachine false).heap.methods := by
    rw [learned]
    exact methods
  obtain ⟨failed, ended⟩ := carries.misses (by rw [known, method]; decide +kernel)
  exact ⟨chronicle, state, leg, live, ready, chronicled, captures, focus, nested, outwards,
    resolved, awaits, failed, ended⟩

end State

end ObjectMachine
