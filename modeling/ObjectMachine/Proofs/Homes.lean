/-
This file keeps account of homes. The context of an activation is on the stack from the start
of the activation to its end, and blocks only ever hold contexts of activations; so a block
that finds its context on the stack has a live home, unless the machine has broken off, which
leaves contexts behind. A block that returns from its home is on its way to one until it gets
there, if no other homes are aimed at than those that catch such returns.
-/

import ObjectMachine.Proofs.Starting

namespace ObjectMachine

/-! ### What deeds leave as it is -/

namespace Deed

variable (deed : Deed) (before : Scene)

@[simp] theorem methods_scene : (deed.scene before).methods = before.methods := by
  cases deed <;> rfl

@[simp] theorem has_context_scene (context : ContextId) :
    (deed.scene before).contexts.Has context ↔ before.contexts.Has context := by
  cases deed with
  | storeContext => exact Table.has_modify _ _ _ _
  | _ => exact Iff.rfl

@[simp] theorem onStack_scene (context : ContextId) :
    ((deed.scene before).contexts.get context).onStack =
      (before.contexts.get context).onStack := by
  cases deed with
  | storeContext target slot value =>
    show ((before.contexts.modify target _).get context).onStack = _
    rcases Table.get_modify_cases before.contexts target context (fun row =>
      { row with slots := row.slots.setIfInBounds slot value }) with same | ⟨-, same⟩
    · rw [same]
    · rw [same]
  | _ => rfl

/-- Only a store into slot zero replaces a receiver. -/
theorem receiver_scene
    (spares : ∀ context slot value, deed = .storeContext context slot value → slot ≠ 0)
    (context : ContextId) :
    ((deed.scene before).contexts.get context).slots[0]? =
      (before.contexts.get context).slots[0]? := by
  cases deed with
  | storeContext target slot value =>
    show ((before.contexts.modify target _).get context).slots[0]? = _
    rcases Table.get_modify_cases before.contexts target context (fun row =>
      { row with slots := row.slots.setIfInBounds slot value }) with same | ⟨-, same⟩
    · rw [same]
    · rw [same]
      exact Array.getElem?_setIfInBounds_ne (spares target slot value rfl)
  | _ => rfl

/-- The blocks that there are stay as they are. -/
theorem block_scene_of_has {block : BlockId} (has : before.blocks.Has block) :
    (deed.scene before).blocks.get block = before.blocks.get block := by
  cases deed with
  | makeBlock made => exact Table.get_add_of_has _ _ _ has
  | _ => rfl

/-- A block is an old one, or it has just been made. -/
theorem block_scene {block : BlockId} {row : Block}
    (found : (deed.scene before).blocks.get block = row) :
    before.blocks.get block = row ∨ deed = .makeBlock row := by
  cases deed with
  | makeBlock made =>
    by_cases new : block = before.blocks.next
    · subst new
      rw [← found]
      exact .inr (congrArg makeBlock (Table.get_add_next _ _).symm)
    · exact .inl ((Table.get_add_of_ne _ _ _ new).symm.trans found)
  | _ => exact .inl found

@[simp] theorem contexts_homes (homes : List Home) :
    (deed.homes homes).filterMap Home.context = homes.filterMap Home.context := by
  cases homes <;> rfl

@[simp] theorem context_frame (before : Frame) :
    (deed.frame before).context = before.context := by
  cases deed <;> rfl

/-- A home after a deed was one before, but for the slots of its frame. -/
theorem home_homes {homes : List Home} {home : Home} (member : home ∈ deed.homes homes) :
    ∃ old ∈ homes, home.context = old.context ∧ home.catches = old.catches ∧
      home.method = old.method ∧ home.frame.context = old.frame.context := by
  cases homes with
  | nil => cases member
  | cons head outer =>
    rcases List.mem_cons.mp member with rfl | member
    · exact ⟨head, List.mem_cons_self, rfl, rfl, rfl, deed.context_frame head.frame⟩
    · exact ⟨home, List.mem_cons_of_mem _ member, rfl, rfl, rfl, rfl⟩

/-- The homes keep their contexts. -/
theorem homes_home {homes : List Home} {old : Home} (member : old ∈ homes) :
    ∃ home ∈ deed.homes homes, home.context = old.context ∧ home.catches = old.catches := by
  cases homes with
  | nil => cases member
  | cons head outer =>
    rcases List.mem_cons.mp member with rfl | member
    · exact ⟨_, List.mem_cons_self, rfl, rfl⟩
    · exact ⟨old, List.mem_cons_of_mem _ member, rfl, rfl⟩

end Deed

namespace Activation

variable {activation : Activation} {machine : Machine} {instruction : Instruction} {block : Block}

/-- A block that is to hold a context holds that of the activation that makes it. -/
theorem makesBlock (does : activation.deed machine instruction = .makeBlock block) :
    ∃ literal captures, instruction = .pushBlock literal captures ∧
      machine.heap.code.literal? activation.method literal =
        some (.invokable (.method block.method)) ∧
      block.context = if captures then activation.frame.context else none := by
  have orders := activation.orders_deed machine instruction
  rw [does] at orders
  cases orders with
  | makeBlock literal captures found =>
    refine ⟨literal, captures, rfl, ?_, rfl⟩
    unfold blockMethod? at found
    split at found
    · rename_i literal
      cases found
      exact literal
    · cases found

/-- A block takes the context of the activation that makes it, or none. -/
theorem context_of_makeBlock {context : ContextId}
    (made : activation.deed machine instruction = .makeBlock block)
    (captured : block.context = some context) : activation.frame.context = some context := by
  obtain ⟨-, captures, -, -, held⟩ := makesBlock made
  rw [held] at captured
  cases captures with
  | true => exact captured
  | false => cases captured

end Activation

namespace Scene

variable (scene : Scene)

@[simp] theorem blocks_finish (context : Option ContextId) :
    (scene.finish context).blocks = scene.blocks := by
  cases context <;> rfl

@[simp] theorem methods_finish (context : Option ContextId) :
    (scene.finish context).methods = scene.methods := by
  cases context <;> rfl

@[simp] theorem has_context_finish (ended : Option ContextId) (context : ContextId) :
    (scene.finish ended).contexts.Has context ↔ scene.contexts.Has context := by
  cases ended with
  | none => exact Iff.rfl
  | some ended => exact Table.has_modify _ _ _ _

/-- The end of an activation takes its own context off the stack, and no other. -/
theorem onStack_finish (ended : Option ContextId) (context : ContextId)
    (has : scene.contexts.Has context) :
    ((scene.finish ended).contexts.get context).onStack =
      ((scene.contexts.get context).onStack && ended != some context) := by
  cases ended with
  | none => simp [finish]
  | some ended =>
    show ((scene.contexts.modify ended _).get context).onStack = _
    by_cases same : ended = context
    · subst same
      rw [Table.get_modify_self _ _ _ has]
      simp
    · rw [Table.get_modify_of_ne _ _ _ _ (Ne.symm same)]
      simp [same]

end Scene

/-! ### Scenes and live activations -/

namespace Scene

/-- Contexts, blocks and live activations fit together. -/
structure Links (scene : Scene) (homes : List Home) : Prop where
  /-- What a block holds is the context of an activation. -/
  captured : ∀ block context, (scene.blocks.get block).context = some context →
    scene.contexts.Has context
  running : ∀ home ∈ homes, ∀ context, home.context = some context →
    scene.contexts.Has context ∧ (scene.contexts.get context).onStack = true
  apart : (homes.filterMap Home.context).Nodup
  framed : ∀ home ∈ homes, home.frame.context = home.context
  flagged : ∀ home ∈ homes, home.catches = (scene.methods.get home.method).catchesReturns

/-- A block that finds its context on the stack has a live home. -/
def Homed (scene : Scene) (homes : List Home) : Prop :=
  ∀ block context, (scene.blocks.get block).context = some context →
    (scene.contexts.get context).onStack = true → ∃ home ∈ homes, home.context = some context

section

variable {scene : Scene} {homes : List Home}

namespace Links

/-- Where no activation is live, only the blocks have to be looked at. -/
theorem of_blocks
    (captured : ∀ block context, (scene.blocks.get block).context = some context →
      scene.contexts.Has context) :
    scene.Links [] where
  captured := captured
  running home member := by cases member
  apart := List.nodup_nil
  framed home member := by cases member
  flagged home member := by cases member

/-- A deed keeps the links. -/
theorem deed (links : scene.Links homes) (deed : Deed)
    (makes : ∀ block context, deed = .makeBlock block → block.context = some context →
      ∃ home ∈ homes, home.context = some context) :
    (deed.scene scene).Links (deed.homes homes) where
  captured block context held := by
    rw [Deed.has_context_scene]
    rcases Deed.block_scene deed scene rfl with old | made
    · exact links.captured block context (old ▸ held)
    · obtain ⟨home, member, anchored⟩ := makes _ context made held
      exact (links.running home member context anchored).1
  running home member context anchored := by
    obtain ⟨old, oldMember, same, -⟩ := Deed.home_homes _ member
    rw [Deed.has_context_scene, Deed.onStack_scene]
    exact links.running old oldMember context (same ▸ anchored)
  apart := by
    rw [Deed.contexts_homes]
    exact links.apart
  framed home member := by
    obtain ⟨old, oldMember, context, -, -, frame⟩ := Deed.home_homes _ member
    rw [frame, context]
    exact links.framed old oldMember
  flagged home member := by
    obtain ⟨old, oldMember, -, catches, method, -⟩ := Deed.home_homes _ member
    rw [Deed.methods_scene, catches, method]
    exact links.flagged old oldMember

section

variable {code : Method} {receiver : Value} {puts : List (VariablePlace × Value)}

theorem has_started {context : ContextId} (has : scene.contexts.Has context) :
    (scene.started code receiver puts).contexts.Has context ∧
      (scene.started code receiver puts).contexts.get context = scene.contexts.get context := by
  unfold Scene.started
  split
  · exact ⟨has, rfl⟩
  · exact ⟨Table.has_add_of_has _ _ _ has, Table.get_add_of_has _ _ _ has⟩

theorem blocks_started : (scene.started code receiver puts).blocks = scene.blocks := by
  unfold Scene.started
  split <;> rfl

/-- A start that fails leaves at most a context behind that no block knows. -/
theorem started (links : scene.Links homes) :
    (scene.started code receiver puts).Links homes where
  captured block context held := by
    rw [blocks_started] at held
    exact (has_started (links.captured block context held)).1
  running home member context anchored := by
    have ⟨has, running⟩ := links.running home member context anchored
    rw [(has_started has).2]
    exact ⟨(has_started has).1, running⟩
  apart := links.apart
  framed := links.framed
  flagged home member := by
    rw [Live.methods_started]
    exact links.flagged home member

omit receiver puts in
/-- The context of an activation that starts is new. -/
theorem startContext_new {context : ContextId} (opened : scene.startContext code = some context) :
    ¬ scene.contexts.Has context := by
  unfold Scene.startContext at opened
  split at opened <;> cases opened
  exact fun has => Table.ne_next_of_has _ _ has rfl

/-- It is there from then on, and on the stack. -/
theorem startContext_started {context : ContextId}
    (opened : scene.startContext code = some context) :
    (scene.started code receiver puts).contexts.Has context ∧
      ((scene.started code receiver puts).contexts.get context).onStack = true := by
  unfold Scene.startContext at opened
  split at opened
  · cases opened
  · rename_i nonempty
    cases opened
    rw [Scene.started, if_neg nonempty]
    exact ⟨Table.has_add_next _ _, congrArg Context.onStack (Table.get_add_next _ _)⟩

/-- An activation starts. -/
theorem opened (links : scene.Links homes) {home : Home}
    (context : home.context = scene.startContext code)
    (framed : home.frame.context = home.context)
    (flagged : home.catches = (scene.methods.get home.method).catchesReturns) :
    (scene.started code receiver puts).Links (home :: homes) where
  captured := links.started.captured
  running other member anchor anchored := by
    rcases List.mem_cons.mp member with rfl | member
    · exact startContext_started (context.symm.trans anchored)
    · exact links.started.running other member anchor anchored
  apart := by
    cases anchored : home.context with
    | none =>
      rw [List.filterMap_cons_none anchored]
      exact links.apart
    | some anchor =>
      rw [List.filterMap_cons_some anchored]
      refine List.nodup_cons.mpr ⟨fun member => ?_, links.apart⟩
      obtain ⟨other, otherMember, same⟩ := List.mem_filterMap.mp member
      exact startContext_new (context.symm.trans anchored)
        (links.running other otherMember anchor same).1
  framed other member := by
    rcases List.mem_cons.mp member with rfl | member
    · exact framed
    · exact links.framed other member
  flagged other member := by
    rw [Live.methods_started]
    rcases List.mem_cons.mp member with rfl | member
    · exact flagged
    · exact links.flagged other member

end

/-- The other live activations have other contexts than the innermost one. -/
theorem context_ne {home other : Home} {outer : List Home} (links : scene.Links (home :: outer))
    (member : other ∈ outer) {context : ContextId} (anchored : other.context = some context) :
    home.context ≠ some context := by
  intro same
  have apart := links.apart
  rw [List.filterMap_cons_some same] at apart
  exact (List.nodup_cons.mp apart).1 (List.mem_filterMap.mpr ⟨other, member, anchored⟩)

/-- The innermost activation ends; its context is the only one that it may take along. -/
theorem finish {home : Home} {outer : List Home} (links : scene.Links (home :: outer))
    {ended : Option ContextId}
    (own : ∀ context, ended = some context → home.context = some context) :
    (scene.finish ended).Links outer where
  captured block context held := by
    rw [blocks_finish] at held
    rw [has_context_finish]
    exact links.captured block context held
  running other member context anchored := by
    have ⟨has, running⟩ := links.running other (List.mem_cons_of_mem _ member) context anchored
    have apart : ended ≠ some context := fun same =>
      links.context_ne member anchored (own context same)
    rw [has_context_finish, onStack_finish _ _ _ has, running]
    exact ⟨has, by simpa using apart⟩
  apart := links.apart.sublist ((List.sublist_cons_self home outer).filterMap Home.context)
  framed other member := links.framed other (List.mem_cons_of_mem _ member)
  flagged other member := by
    rw [methods_finish]
    exact links.flagged other (List.mem_cons_of_mem _ member)

end Links

namespace Homed

variable (homed : scene.Homed homes)

include homed

theorem deed (deed : Deed)
    (makes : ∀ block context, deed = .makeBlock block → block.context = some context →
      ∃ home ∈ homes, home.context = some context) :
    (deed.scene scene).Homed (deed.homes homes) := by
  intro block context held running
  rw [Deed.onStack_scene] at running
  have found : ∃ home ∈ homes, home.context = some context := by
    rcases Deed.block_scene deed scene rfl with old | made
    · exact homed block context (old ▸ held) running
    · exact makes _ context made held
  obtain ⟨home, member, anchored⟩ := found
  obtain ⟨kept, keptMember, same, -⟩ := deed.homes_home member
  exact ⟨kept, keptMember, same.trans anchored⟩

theorem started (links : scene.Links homes) {code : Method} {receiver : Value}
    {puts : List (VariablePlace × Value)} : (scene.started code receiver puts).Homed homes := by
  intro block context held running
  rw [Links.blocks_started] at held
  rw [(Links.has_started (links.captured block context held)).2] at running
  exact homed block context held running

theorem cons (home : Home) : scene.Homed (home :: homes) := by
  intro block context held running
  obtain ⟨other, member, anchored⟩ := homed block context held running
  exact ⟨other, List.mem_cons_of_mem _ member, anchored⟩

omit homed

/-- An activation that takes its context along leaves no block behind that looks for it. -/
theorem finish {home : Home} {outer : List Home} (homed : scene.Homed (home :: outer))
    (links : scene.Links (home :: outer)) : (scene.finish home.context).Homed outer := by
  intro block context held running
  rw [blocks_finish] at held
  rw [onStack_finish _ _ _ (links.captured block context held)] at running
  obtain ⟨running, ended⟩ : _ ∧ home.context ≠ some context := by simpa using running
  obtain ⟨other, member, anchored⟩ := homed block context held running
  rcases List.mem_cons.mp member with rfl | member
  · exact (ended anchored).elim
  · exact ⟨other, member, anchored⟩

end Homed

end

end Scene

/-! ### The states of a program -/

namespace State

/-- No code runs. -/
def idle (machine : Machine) : State := ⟨machine, .answer .nil, []⟩

/-- The machine has broken off, and nothing is finished any more. -/
def brokenOff (state : State) : Bool :=
  match state.focus with
  | .fail abrupt => abrupt.breaksOff
  | _ => false

/--
The states that a program comes to: a host makes machines, changes anything but blocks and
contexts between two runs, and calls; every state that steps obeys a rule. With a machine that
has broken off a host does not go on.
-/
inductive Visited (rule : State → Prop) : State → Prop
  | first {machine : Machine} (blocks : machine.heap.blocks.size = 0) : Visited rule (idle machine)
  | hosted {state : State} {machine : Machine} (visited : Visited rule state)
    (rests : state.step = none) (contexts : machine.heap.contexts = state.machine.heap.contexts)
    (blocks : machine.heap.blocks = state.machine.heap.blocks) : Visited rule (idle machine)
  | called {state : State} (visited : Visited rule state) (rests : state.step = none)
    (made : Call) : Visited rule ⟨state.machine, .call made, []⟩
  | stepped {before after : State} (visited : Visited rule before) (obeys : rule before)
    (stepped : before.step = some after) (whole : after.brokenOff = false) : Visited rule after

/-- A block only ever returns from a home that catches returns. -/
def Catches (state : State) : Prop :=
  ∀ block value target, state.Returns block value target →
    ∀ home ∈ state.homes, home.context = some target →
      (state.scene.methods.get home.method).catchesReturns = true

/-- Contexts, blocks and live activations fit together, and a return has its home. -/
structure Linked (state : State) : Prop where
  links : state.scene.Links state.homes
  homed : state.scene.Homed state.homes
  returning : ∀ value target, state.focus = .fail (.nonLocalReturn value target) →
    ∃ home ∈ state.homes, home.context = some target ∧ home.catches = true

/-- Nothing waits and nothing is done once no step is left. -/
theorem over_iff (state : State) :
    state.step = none ↔ state.waiting = [] ∧
      ((∃ value, state.focus = .answer value) ∨ ∃ abrupt, state.focus = .fail abrupt) := by
  obtain ⟨machine, focus, waiting⟩ := state
  cases focus with
  | answer value =>
    cases waiting with
    | nil => simp [step, resumed]
    | cons waits waiting => cases waits <;> simp [step, resumed]
  | fail abrupt =>
    cases waiting with
    | nil => simp [step, unwound]
    | cons waits waiting => cases waits <;> simp [step, unwound]
  | _ => simp [step]

theorem homes_of_over {state : State} (rests : state.step = none) : state.homes = [] := by
  obtain ⟨waiting, ⟨value, focus⟩ | ⟨abrupt, focus⟩⟩ := state.over_iff.mp rests <;>
    rw [homes, waiting, focus] <;> rfl

/-- A block is made in the innermost activation and takes the context of its frame. -/
theorem innermost_of_makeBlock {state : State} {block : Block} {context : ContextId}
    (made : state.deed = .makeBlock block) (captured : block.context = some context) :
    ∃ home, state.homes.head? = some home ∧ home.frame.context = some context := by
  unfold deed at made
  split at made
  · rename_i leg live turns
    unfold Leg.deed at made
    split at made
    · refine ⟨live.home, ?_, Activation.context_of_makeBlock made captured⟩
      rw [homes_of_turn turns, List.head?_cons]
    · cases made
  · cases made

theorem home_of_makeBlock {state : State} (links : state.scene.Links state.homes) {block : Block}
    {context : ContextId} (made : state.deed = .makeBlock block)
    (captured : block.context = some context) :
    ∃ home ∈ state.homes, home.context = some context := by
  obtain ⟨home, innermost, framed⟩ := innermost_of_makeBlock made captured
  have member := List.mem_of_head? innermost
  exact ⟨home, member, (links.framed home member).symm.trans framed⟩

/-- A block that returns to its running home has a live one. -/
theorem home_of_returns {state : State} (homed : state.scene.Homed state.homes) {block : BlockId}
    {value : Value} {target : ContextId} (returns : state.Returns block value target)
    (running : state.machine.heap.isHomeRunning block = true) :
    ∃ home ∈ state.homes, home.context = some target := by
  obtain ⟨leg, live, node, -, -, level, stack, -, -, -, -, captured⟩ := returns
  refine homed block target captured ?_
  rw [Heap.isHomeRunning, Heap.blockContext?, captured] at running
  exact running

section

variable {before after : State}

/-- One step keeps the links. -/
theorem links_step (links : before.scene.Links before.homes) (goes : before.Goes after) :
    after.scene.Links after.homes := by
  have performed := links.deed before.deed fun block context makes captured =>
    home_of_makeBlock links makes captured
  cases goes with
  | on scene homes fails =>
    rw [scene, homes]
    exact performed
  | start calls target started entered waiting =>
    obtain ⟨home, scene⟩ := Live.home_of_start started
    rw [State.homes_of_start calls entered waiting, show after.scene = _ from scene, home]
    exact links.opened rfl rfl rfl
  | reject calls target refused failed waiting =>
    obtain ⟨⟨_, scene⟩, -⟩ := Live.scene_of_refused refused
    rw [State.homes_of_reject calls failed waiting, show after.scene = _ from scene]
    exact links.started
  | @finish home outer ending homes left scene focus breaks =>
    rw [homes] at performed
    rw [scene, left]
    exact performed.finish fun context cleared => home.context_of_cleared cleared

/-- One step of a machine that does not break off leaves no block without its home. -/
theorem homed_step (links : before.scene.Links before.homes)
    (homed : before.scene.Homed before.homes) (goes : before.Goes after)
    (whole : after.brokenOff = false) : after.scene.Homed after.homes := by
  have makes : ∀ block context, before.deed = .makeBlock block → block.context = some context →
      ∃ home ∈ before.homes, home.context = some context := fun block context made captured =>
    home_of_makeBlock links made captured
  have performed := homed.deed before.deed makes
  cases goes with
  | on scene homes fails =>
    rw [scene, homes]
    exact performed
  | start calls target started entered waiting =>
    obtain ⟨home, scene⟩ := Live.home_of_start started
    rw [State.homes_of_start calls entered waiting, show after.scene = _ from scene, home]
    exact (homed.started links).cons _
  | reject calls target refused failed waiting =>
    obtain ⟨⟨_, scene⟩, -⟩ := Live.scene_of_refused refused
    rw [State.homes_of_reject calls failed waiting, show after.scene = _ from scene]
    exact homed.started links
  | @finish home outer ending homes left scene focus breaks =>
    have finished : home.cleared ending = home.context := home.cleared_of_whole fun abrupt failed =>
      by rwa [brokenOff, focus, failed] at whole
    have performedLinks := links.deed before.deed makes
    rw [homes] at performed performedLinks
    rw [scene, left, finished]
    exact performed.finish performedLinks

/-- One step keeps the links, and a return that has started keeps its home. -/
theorem Linked.step (linked : before.Linked) (catches : before.Catches) (goes : before.Goes after)
    (whole : after.brokenOff = false) : after.Linked := by
  refine ⟨links_step linked.links goes, homed_step linked.links linked.homed goes whole,
    fun value target fails => ?_⟩
  cases goes with
  | on scene homes failing =>
    rcases failing _ fails with ordinary | failing
    · exact (ordinary value target rfl).elim
    · obtain ⟨home, member, anchored, catches⟩ := linked.returning value target failing
      obtain ⟨kept, keptMember, same, flag⟩ := before.deed.homes_home member
      rw [homes]
      exact ⟨kept, keptMember, same.trans anchored, flag.trans catches⟩
  | start _ _ _ entered _ =>
    rw [entered] at fails
    cases fails
  | reject calls called refused failed waiting =>
    obtain ⟨-, ordinary⟩ := Live.scene_of_refused refused
    rw [failed] at fails
    cases fails
    exact (ordinary value _ rfl).elim
  | @finish home outer ending homes left scene focus breaks =>
    rw [focus] at fails
    obtain ⟨same, uncaught⟩ := Home.uncaught fails
    have aimed : ∃ other ∈ before.homes, other.context = some target ∧ other.catches = true := by
      rcases breaks _ same with ordinary | failing | ⟨block, _, _, equal, returns, running⟩
      · exact (ordinary value target rfl).elim
      · exact linked.returning value target failing
      · cases equal
        obtain ⟨other, member, anchored⟩ := home_of_returns linked.homed returns running
        have flag := catches block value target returns other member anchored
        exact ⟨other, member, anchored, (linked.links.flagged other member).trans flag⟩
    obtain ⟨other, member, anchored, flag⟩ := aimed
    rw [homes] at member
    rcases List.mem_cons.mp member with rfl | member
    · rw [uncaught value target rfl anchored] at flag
      cases flag
    · rw [left]
      exact ⟨other, member, anchored, flag⟩

end

/-- Before anything has run no block holds a context. -/
theorem context_of_no_blocks {machine : Machine} (blocks : machine.heap.blocks.size = 0)
    (block : BlockId) : ((idle machine).scene.blocks.get block).context = none := by
  have absent : ¬ machine.heap.blocks.Has block := by simp [Table.Has, blocks]
  exact congrArg Block.context (Table.get_of_not_has _ _ absent)

theorem links_idle_of_no_blocks {machine : Machine} (blocks : machine.heap.blocks.size = 0) :
    (idle machine).scene.Links (idle machine).homes :=
  .of_blocks fun block context held => by cases (context_of_no_blocks blocks block).symm.trans held

/-- A host that touches neither blocks nor contexts keeps them. -/
theorem links_idle {state : State} {machine : Machine} (links : state.scene.Links state.homes)
    (contexts : machine.heap.contexts = state.machine.heap.contexts)
    (blocks : machine.heap.blocks = state.machine.heap.blocks) :
    (idle machine).scene.Links (idle machine).homes := by
  refine .of_blocks fun block context held => ?_
  rw [show (idle machine).scene.blocks = state.scene.blocks from blocks] at held
  rw [show (idle machine).scene.contexts = state.scene.contexts from contexts]
  exact links.captured block context held

/-- Where only catching methods have blocks that return, returns find their homes. -/
theorem Visited.linked {state : State} (visited : state.Visited Catches) : state.Linked := by
  induction visited with
  | @first machine blocks =>
    refine ⟨links_idle_of_no_blocks blocks, fun block context held _ => ?_, fun _ _ failed => by
      cases failed⟩
    cases (context_of_no_blocks blocks block).symm.trans held
  | @hosted state machine _ rests contexts blocks linked =>
    refine ⟨links_idle linked.links contexts blocks, fun block context held running => ?_,
      fun _ _ failed => by cases failed⟩
    rw [show (idle machine).scene.blocks = state.scene.blocks from blocks] at held
    rw [show (idle machine).scene.contexts = state.scene.contexts from contexts] at running
    obtain ⟨home, member, -⟩ := linked.homed block context held running
    rw [homes_of_over rests] at member
    cases member
  | @called state _ rests made linked =>
    obtain ⟨links, homed, -⟩ := linked
    rw [homes_of_over rests] at links homed
    exact ⟨links, homed, fun _ _ failed => by cases failed⟩
  | stepped _ obeys stepped whole linked => exact linked.step obeys (goes_step stepped) whole

/-! ### Breaking off -/

/-- A machine that has broken off does not recover. -/
theorem brokenOff_step {before after : State} (broken : before.brokenOff = true)
    (stepped : before.step = some after) : after.brokenOff = true := by
  cases step_eq_some_iff.mp stepped with
  | abandon machine abrupt leg live next reply waiting =>
    rw [abandoned_eq, brokenOff, live.home.focus_of_breaksOff broken]
    exact broken
  | unwind machine abrupt pending waiting => exact broken
  | _ => cases broken

theorem brokenOff_of_reaches {first last : State} {count : Nat}
    (broken : first.brokenOff = true) (reaches : Reaches count first last) :
    last.brokenOff = true := by
  induction reaches with
  | here => exact broken
  | step stepped _ inductionHypothesis => exact inductionHypothesis (brokenOff_step broken stepped)

end State

end ObjectMachine
