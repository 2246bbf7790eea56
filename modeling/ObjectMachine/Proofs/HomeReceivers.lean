/-
This file says whom the running code finds when it looks for the receiver of the method it is
nested in. It goes from block to block, by the receivers that contexts keep, and stops at the
first value that is no block with a context. That is the receiver of the method if nobody has
replaced a receiver and the method was not called on such a block: then the walk does not stop
at the method and goes on to where that block was made.
-/

import ObjectMachine.Proofs.LexicalVariables

namespace ObjectMachine

/-! ### Rules -/

/-- Every method's own variables have been placed. -/
def Scene.Placed (scene : Scene) : Prop :=
  ∀ method, scene.methods.Has method → ∃ arguments locals needsContext,
    (scene.methods.get method).scope.own = .of arguments locals needsContext

theorem Scene.Placed.settled {scene : Scene} (placed : scene.Placed) (method : MethodId) :
    (scene.methods.get method).scope.own.Settled := by
  by_cases has : scene.methods.Has method
  · obtain ⟨arguments, locals, needsContext, own⟩ := placed method has
    rw [own]
    exact ScopeLevel.settled_of _ _ _
  · rw [Table.get_of_not_has _ _ has]
    exact ScopeLevel.settled_default

/-- What is done next stores into no slot that holds a receiver. -/
structure State.SparesReceivers (state : State) : Prop where
  placed : state.scene.Placed
  frames : ∀ slot value, state.deed = .storeFrame slot value → slot ≠ 0
  contexts : ∀ context slot value, state.deed = .storeContext context slot value → slot ≠ 0

/--
The states of a program with their chronicles: a host makes machines without blocks, changes
between two runs what it likes but blocks, contexts and the methods there are, and calls; no
step stores into a slot that holds a receiver.
-/
inductive Recounted : Chronicle → State → Prop
  | first {machine : Machine} (blocks : machine.heap.blocks.size = 0) :
    Recounted .blank (.idle machine)
  | hosted {chronicle : Chronicle} {state : State} {machine : Machine}
    (recounted : Recounted chronicle state) (rests : state.step = none)
    (contexts : machine.heap.contexts = state.machine.heap.contexts)
    (blocks : machine.heap.blocks = state.machine.heap.blocks)
    (methods : ∀ method, state.scene.methods.Has method →
      machine.heap.methods.Has method ∧
        machine.heap.methods.get method = state.scene.methods.get method) :
    Recounted chronicle (.idle machine)
  | called {chronicle : Chronicle} {state : State} (recounted : Recounted chronicle state)
    (rests : state.step = none) (made : Call) : Recounted chronicle ⟨state.machine, .call made, []⟩
  | stepped {chronicle : Chronicle} {before after : State} (recounted : Recounted chronicle before)
    (spares : before.SparesReceivers) (stepped : before.step = some after) :
    Recounted (chronicle.next before after) after

/-! ### Receivers in their slots -/

namespace Chronicle

/-- One activation evaluates a block that holds the context of the other. -/
def Enters (scene : Scene) (inner outer : Chapter) : Prop :=
  ∃ block context, inner.receiver = .block block ∧
    (scene.blocks.get block).context = some context ∧ outer.context = some context

/-- Receivers are where they were put, and blocks lead back to where they were made. -/
structure Grounded (chronicle : Chronicle) (scene : Scene) (homes : List Home) : Prop where
  frames : ∀ pair ∈ chronicle.live.zip homes,
    pair.2.frame.slots[0]? = some (chronicle.chapter pair.1).receiver
  contexts : ∀ {serial context}, (chronicle.chapter serial).context = some context →
    (scene.contexts.get context).slots[0]? = some (chronicle.chapter serial).receiver
  makers : ∀ {block context}, (scene.blocks.get block).context = some context →
    ∃ maker, chronicle.maker block = some maker ∧
      (chronicle.chapter maker).context = some context
  parents : ∀ {serial}, serial < chronicle.started → (chronicle.chapter serial).closure = true →
    ∃ parent, (chronicle.chapter serial).parent = some parent ∧ parent < serial ∧
      Enters scene (chronicle.chapter serial) (chronicle.chapter parent)
  /-- Contexts are numbered in the order in which their activations started. -/
  ordered : ∀ {first second early late}, (chronicle.chapter first).context = some early →
    (chronicle.chapter second).context = some late → first < second → early.index < late.index

section

variable {chronicle : Chronicle} {scene after : Scene} {homes : List Home} {deed : Deed}

@[simp] theorem closure_perform (serial : Nat) :
    ((chronicle.perform scene deed).chapter serial).closure =
      (chronicle.chapter serial).closure := by
  obtain ⟨memory, same⟩ := chronicle.chapter_perform scene deed serial
  rw [same]

theorem Grounded.blank (none : ∀ block, ¬scene.blocks.Has block) :
    Chronicle.blank.Grounded scene [] where
  frames pair member := by cases member
  contexts anchored := by cases anchored
  makers captured := (none _ (has_block captured)).elim
  parents recent := (Nat.not_lt_zero _ recent).elim
  ordered anchored := by cases anchored

/-- Between two runs only blocks and contexts have to stay. -/
theorem Grounded.hosted (grounded : chronicle.Grounded scene [])
    (contexts : after.contexts = scene.contexts) (blocks : after.blocks = scene.blocks) :
    chronicle.Grounded after [] where
  frames pair member := by
    rw [List.zip_nil_right] at member
    cases member
  contexts := by
    rw [contexts]
    exact grounded.contexts
  makers := by
    rw [blocks]
    exact grounded.makers
  parents := by
    unfold Enters
    rw [blocks]
    exact grounded.parents
  ordered := grounded.ordered

/-- A start that fails touches nothing that there was. -/
theorem Grounded.started (grounded : chronicle.Grounded scene homes)
    (follows : chronicle.Follows (fun _ => False) scene homes) {code : Method} {receiver : Value}
    {puts : List (VariablePlace × Value)} :
    chronicle.Grounded (scene.started code receiver puts) homes where
  frames := grounded.frames
  contexts anchored := by
    rw [(Scene.Links.has_started (follows.owned anchored).2.1).2]
    exact grounded.contexts anchored
  makers := by
    rw [Scene.Links.blocks_started]
    exact grounded.makers
  parents := by
    unfold Enters
    rw [Scene.Links.blocks_started]
    exact grounded.parents
  ordered := grounded.ordered

/-- The slot of the receiver of the innermost activation is not stored into. -/
theorem Grounded.frames_perform (grounded : chronicle.Grounded scene homes)
    (frames : ∀ slot value, deed = .storeFrame slot value → slot ≠ 0) :
    ∀ pair ∈ chronicle.live.zip (deed.homes homes),
      pair.2.frame.slots[0]? = some (chronicle.chapter pair.1).receiver := by
  intro pair member
  cases homes with
  | nil =>
    rw [Deed.homes, List.zip_nil_right] at member
    cases member
  | cons home outer =>
    cases live : chronicle.live with
    | nil =>
      rw [live] at member
      cases member
    | cons serial rest =>
      have held := grounded.frames
      rw [live, List.zip_cons_cons] at held
      rw [live, Deed.homes, List.zip_cons_cons] at member
      rcases List.mem_cons.mp member with rfl | member
      · rw [← held (serial, home) List.mem_cons_self]
        cases deed with
        | storeFrame slot value =>
          exact Array.getElem?_setIfInBounds_ne (frames slot value rfl)
        | _ => rfl
      · exact held pair (List.mem_cons_of_mem _ member)

/-- One deed that spares the receivers. -/
theorem Grounded.perform (grounded : chronicle.Grounded scene homes)
    (follows : chronicle.Follows (fun _ => False) scene homes)
    (frames : ∀ slot value, deed = .storeFrame slot value → slot ≠ 0)
    (contexts : ∀ context slot value, deed = .storeContext context slot value → slot ≠ 0)
    (makes : ∀ block context, deed = .makeBlock block → block.context = some context →
      ∃ home, homes.head? = some home ∧ home.context = some context) :
    (chronicle.perform scene deed).Grounded (deed.scene scene) (deed.homes homes) where
  frames := by
    simp only [live_perform, receiver_perform]
    exact grounded.frames_perform frames
  contexts {serial context} anchored := by
    rw [context_perform] at anchored
    rw [receiver_perform, deed.receiver_scene scene contexts]
    exact grounded.contexts anchored
  makers {block context} captured := by
    simp only [context_perform]
    cases deed with
    | makeBlock made =>
      simp only [Chronicle.perform]
      by_cases new : block = scene.blocks.next
      · subst new
        rw [show ((Deed.makeBlock made).scene scene).blocks = scene.blocks.add made from rfl,
          Table.get_add_next] at captured
        obtain ⟨home, innermost, anchored⟩ := makes made context rfl captured
        obtain ⟨serial, first, lives⟩ := follows.accounts.head innermost
        exact ⟨serial, (if_pos rfl).trans first, lives.context.trans anchored⟩
      · rw [show ((Deed.makeBlock made).scene scene).blocks = scene.blocks.add made from rfl,
          Table.get_add_of_ne _ _ _ new] at captured
        obtain ⟨maker, known, anchored⟩ := grounded.makers captured
        exact ⟨maker, (if_neg new).trans known, anchored⟩
    | _ => exact grounded.makers captured
  parents {serial} recent closure := by
    rw [started_perform] at recent
    rw [closure_perform] at closure
    obtain ⟨parent, known, older, block, context, receives, captured, anchored⟩ :=
      grounded.parents recent closure
    refine ⟨parent, (parent_perform serial).trans known, older, block, context,
      (receiver_perform serial).trans receives, ?_, (context_perform parent).trans anchored⟩
    rw [deed.block_scene_of_has scene (has_block captured)]
    exact captured
  ordered {first second early late} left right earlier := by
    rw [context_perform] at left right
    exact grounded.ordered left right earlier

theorem Grounded.close {home : Home} (grounded : chronicle.Grounded scene (home :: homes))
    (ended : Option ContextId) : chronicle.close.Grounded (scene.finish ended) homes where
  frames pair member := by
    refine grounded.frames pair ?_
    cases live : chronicle.live with
    | nil =>
      rw [Chronicle.close, live] at member
      cases member
    | cons serial rest =>
      rw [Chronicle.close, live] at member
      exact List.mem_cons_of_mem _ member
  contexts anchored := by
    rw [slots_finish]
    exact grounded.contexts anchored
  makers := by
    rw [Scene.blocks_finish]
    exact grounded.makers
  parents := by
    unfold Enters
    rw [Scene.blocks_finish]
    exact grounded.parents
  ordered := grounded.ordered

/-- An activation starts; a block that it evaluates was made before. -/
theorem Grounded.begin (grounded : chronicle.Grounded scene homes)
    (follows : chronicle.Follows (fun _ => False) scene homes) (placed : scene.Placed)
    {method : MethodId} {receiver : Value} {values : List Value} {home : Home} {catches : Bool}
    (same : home = ⟨scene.startContext (scene.methods.get method), catches, method,
      scene.startFrame (scene.methods.get method) receiver
        ((scene.methods.get method).scope.own.arguments.zip values)⟩) :
    (chronicle.begin scene method receiver values).Grounded
      (scene.started (scene.methods.get method) receiver
        ((scene.methods.get method).scope.own.arguments.zip values)) (home :: homes) := by
  subst same
  have settled := placed.settled method
  have before : chronicle.Grounded
      (scene.started (scene.methods.get method) receiver
        ((scene.methods.get method).scope.own.arguments.zip values)) homes :=
    grounded.started follows
  have older {serial : Nat} (recent : serial < chronicle.started) :
      (chronicle.begin scene method receiver values).chapter serial = chronicle.chapter serial :=
    chapter_begin_of_ne (Nat.ne_of_lt recent)
  constructor
  case frames =>
    intro pair member
    rw [show (chronicle.begin scene method receiver values).live =
      chronicle.started :: chronicle.live from rfl, List.zip_cons_cons] at member
    rcases List.mem_cons.mp member with rfl | member
    · rw [chapter_begin_self]
      exact (settled.holds_fresh VariablePlace.slotted_frame settled.frameSlot values).receiver
    · rw [older (follows.recent _ (List.of_mem_zip member).1)]
      exact before.frames pair member
  case contexts =>
    intro serial context anchored
    by_cases new : serial = chronicle.started
    · subst new
      rw [chapter_begin_self] at anchored ⊢
      exact (holds_started settled anchored).receiver
    · rw [chapter_begin_of_ne new] at anchored ⊢
      exact before.contexts anchored
  case makers =>
    intro block context captured
    obtain ⟨maker, known, anchored⟩ := before.makers captured
    refine ⟨maker, known, ?_⟩
    rw [older (follows.owned anchored).1]
    exact anchored
  case parents =>
    intro serial recent closure
    by_cases new : serial = chronicle.started
    · subst new
      rw [chapter_begin_self] at closure ⊢
      obtain ⟨block, context, rfl, belongs, captured⟩ := isClosure_iff.mp closure
      obtain ⟨maker, known, anchored⟩ := grounded.makers captured
      have made := (follows.owned anchored).1
      refine ⟨maker, ?_, made, block, context, rfl, ?_, ?_⟩
      · show chronicle.parentOf scene method (.block block) = some maker
        rw [parentOf, if_pos closure, known]
      · rw [Scene.Links.blocks_started]
        exact captured
      · rw [older made]
        exact anchored
    · rw [chapter_begin_of_ne new] at closure ⊢
      obtain ⟨parent, known, earlier, enters⟩ :=
        before.parents (Nat.lt_of_le_of_ne (Nat.le_of_lt_succ recent) new) closure
      refine ⟨parent, known, earlier, ?_⟩
      rw [older (Nat.lt_of_lt_of_le earlier (Nat.le_of_lt_succ recent))]
      exact enters
  case ordered =>
    intro first second early late left right earlier
    by_cases newSecond : second = chronicle.started
    · subst newSecond
      rw [chapter_begin_self] at right
      rw [older earlier] at left
      have has : early.index < scene.contexts.size := (follows.owned left).2.1
      dsimp only at right
      unfold Scene.startContext at right
      split at right
      · cases right
      · cases right
        exact has
    · rw [chapter_begin_of_ne newSecond] at right
      have newFirst : first ≠ chronicle.started :=
        Nat.ne_of_lt (Nat.lt_trans earlier (follows.owned right).1)
      rw [chapter_begin_of_ne newFirst] at left
      exact grounded.ordered left right earlier

end

/-- Receivers stay in their slots from one state to the next. -/
theorem Grounded.step {chronicle : Chronicle} {before after : State}
    (grounded : chronicle.Grounded before.scene before.homes)
    (follows : chronicle.Follows (fun _ => False) before.scene before.homes)
    (spares : before.SparesReceivers) (goes : before.Goes after) :
    (chronicle.next before after).Grounded after.scene after.homes := by
  have performed : (chronicle.perform before.scene before.deed).Grounded
      (before.deed.scene before.scene) (before.deed.homes before.homes) := by
    refine grounded.perform follows spares.frames spares.contexts
      fun block context made captured => ?_
    obtain ⟨home, innermost, framed⟩ := State.innermost_of_makeBlock made captured
    obtain ⟨serial, -, lives⟩ := follows.accounts.head innermost
    exact ⟨home, innermost, lives.framed.symm.trans framed⟩
  cases chronicle.advances goes with
  | perform scene homes next =>
    rw [next, scene, homes]
    exact performed
  | begin home scene homes next =>
    rw [next, scene, homes]
    exact grounded.begin follows spares.placed home
  | reject scene homes next =>
    rw [next, scene, homes]
    exact grounded.started follows
  | @close home ended homes scene next =>
    rw [homes] at performed
    rw [next, scene]
    exact performed.close ended

end Chronicle

namespace Recounted

variable {chronicle : Chronicle} {state : State}

/-- Without a family, slots follow the chronicle as far as contexts and their owners go. -/
theorem follows (recounted : Recounted chronicle state) :
    chronicle.Follows (fun _ => False) state.scene state.homes := by
  induction recounted with
  | @first machine blocks =>
    refine .blank fun block has => ?_
    have bound : block.index < machine.heap.blocks.size := has
    rw [blocks] at bound
    exact Nat.not_lt_zero _ bound
  | hosted _ rests contexts blocks methods follows =>
    rw [State.homes_of_over rests] at follows
    exact follows.hosted contexts blocks methods
  | called _ rests made follows =>
    rw [State.homes_of_over rests] at follows
    exact follows
  | stepped _ spares stepped follows =>
    exact follows.step ⟨fun _ none => none.elim, fun _ _ _ none => none.elim,
      fun _ _ _ _ _ none => none.elim, fun _ _ _ _ _ _ none => none.elim⟩
      (State.goes_step stepped)

theorem grounded (recounted : Recounted chronicle state) :
    chronicle.Grounded state.scene state.homes := by
  induction recounted with
  | @first machine blocks =>
    refine .blank fun block has => ?_
    have bound : block.index < machine.heap.blocks.size := has
    rw [blocks] at bound
    exact Nat.not_lt_zero _ bound
  | hosted _ rests contexts blocks _ grounded =>
    rw [State.homes_of_over rests] at grounded
    exact grounded.hosted contexts blocks
  | called _ rests made grounded =>
    rw [State.homes_of_over rests] at grounded
    exact grounded
  | stepped recounted spares stepped grounded =>
    exact grounded.step recounted.follows spares (State.goes_step stepped)

end Recounted

/-! ### Home receivers -/

/-- A value is a block that holds a context. -/
def Scene.HoldsContext (scene : Scene) (value : Value) : Prop :=
  ∃ block context, value = .block block ∧ (scene.blocks.get block).context = some context

namespace Frame

variable {heap : Heap} {room : Nat} {value found : Value}

/-- A block with a context leads to the receiver that the context keeps. -/
theorem homeReceiverFrom_block {block : BlockId} {context : ContextId} {outer : Value}
    (captured : (heap.blocks.get block).context = some context)
    (kept : (heap.contexts.get context).slots[0]? = some outer) :
    homeReceiverFrom heap (room + 1) (.block block) = homeReceiverFrom heap room outer := by
  have next : outerReceiver? heap block = some outer := by
    rw [outerReceiver?, Heap.blockContext?, captured, Option.map_some, Option.map_some,
      Array.getD_eq_getD_getElem?, kept]
    rfl
  simp only [homeReceiverFrom, next]

theorem outerReceiver?_eq_none {block : BlockId} :
    outerReceiver? heap block = none ↔ (heap.blocks.get block).context = none := by
  simp [outerReceiver?, Heap.blockContext?]

/-- Any other value is where the walk stops. -/
theorem homeReceiverFrom_plain (plain : ¬heap.scene.HoldsContext value) :
    homeReceiverFrom heap (room + 1) value = some value := by
  cases value with
  | block block =>
    have none : outerReceiver? heap block = none := by
      rw [outerReceiver?_eq_none]
      refine Option.eq_none_iff_forall_ne_some.mpr fun context captured => plain ?_
      exact ⟨block, context, rfl, captured⟩
    simp only [homeReceiverFrom, none]
  | _ => rfl

/-- The walk stops nowhere else. -/
theorem plain_of_homeReceiverFrom (reached : homeReceiverFrom heap room value = some found) :
    ¬heap.scene.HoldsContext found := by
  induction room generalizing value with
  | zero => cases reached
  | succ room inductionHypothesis =>
    by_cases holds : heap.scene.HoldsContext value
    · obtain ⟨block, context, rfl, captured⟩ := holds
      have captured : (heap.blocks.get block).context = some context := captured
      have next : outerReceiver? heap block =
          some ((heap.contexts.get context).slots.getD 0 .nil) := by
        rw [outerReceiver?, Heap.blockContext?, captured]
        rfl
      simp only [homeReceiverFrom, next] at reached
      exact inductionHypothesis reached
    · rw [homeReceiverFrom_plain holds] at reached
      cases reached
      exact holds

theorem homeReceiver_eq {frame : Frame} {machine : Machine} :
    frame.homeReceiver machine = .ok found machine ↔
      homeReceiverFrom machine.heap (machine.heap.contexts.size + 2) frame.receiver =
        some found := by
  rw [homeReceiver, Engine.bind_of_ok (show Engine.heapValue _ machine = .ok _ machine from rfl)]
  cases homeReceiverFrom machine.heap (machine.heap.contexts.size + 2) frame.receiver with
  | none => exact ⟨fun ended => (by cases ended), fun none => (by cases none)⟩
  | some value =>
    constructor
    · intro ended
      cases ended
      rfl
    · intro same
      cases same
      rfl

end Frame

namespace Chronicle

/--
The activation of the method that an activation is nested in: its own, or, if it evaluates a
block that holds a context, that of the activation that made the block.
-/
inductive NestedIn (chronicle : Chronicle) : Nat → Nat → Prop
  | itself {serial : Nat} (plain : (chronicle.chapter serial).closure = false) :
    NestedIn chronicle serial serial
  | block {serial parent home : Nat} (closure : (chronicle.chapter serial).closure = true)
    (known : (chronicle.chapter serial).parent = some parent)
    (outer : NestedIn chronicle parent home) : NestedIn chronicle serial home

section

variable {chronicle : Chronicle} {scene : Scene} {homes : List Home} {serial home : Nat}

/-- Every activation is nested in one of a method. -/
theorem Grounded.nestedIn (grounded : chronicle.Grounded scene homes)
    (recent : serial < chronicle.started) : ∃ home, chronicle.NestedIn serial home := by
  induction serial using Nat.strongRecOn with
  | ind serial inductionHypothesis =>
    cases closure : (chronicle.chapter serial).closure with
    | false => exact ⟨serial, .itself closure⟩
    | true =>
      obtain ⟨parent, known, older, -⟩ := grounded.parents recent closure
      obtain ⟨home, outer⟩ := inductionHypothesis parent older (Nat.lt_trans older recent)
      exact ⟨home, .block closure known outer⟩

end

variable {chronicle : Chronicle} {machine : Machine} {homes : List Home} {serial home : Nat}

/--
The walk gets from an activation to the receiver of its method. Each block on the way holds an
older context than the one before, so there is room for as many as there are.
-/
theorem Grounded.homeReceiverFrom (grounded : chronicle.Grounded machine.heap.scene homes)
    (nested : chronicle.NestedIn serial home) (recent : serial < chronicle.started)
    (plain : ¬machine.heap.scene.HoldsContext (chronicle.chapter home).receiver) {room : Nat}
    (enough : ∀ parent context, (chronicle.chapter serial).closure = true →
      (chronicle.chapter serial).parent = some parent →
      (chronicle.chapter parent).context = some context → context.index + 1 < room)
    (some : 0 < room) :
    Frame.homeReceiverFrom machine.heap room (chronicle.chapter serial).receiver =
      .some (chronicle.chapter home).receiver := by
  induction nested generalizing room with
  | itself =>
    obtain ⟨room, rfl⟩ := Nat.exists_eq_add_one.mpr some
    exact Frame.homeReceiverFrom_plain plain
  | @block serial parent home closure known outer inductionHypothesis =>
    obtain ⟨room, rfl⟩ := Nat.exists_eq_add_one.mpr some
    obtain ⟨other, same, older, block, context, receives, captured, anchored⟩ :=
      grounded.parents recent closure
    obtain rfl : parent = other := Option.some.inj (known.symm.trans same)
    have wide := enough parent context closure known anchored
    rw [receives, Frame.homeReceiverFrom_block captured (grounded.contexts anchored)]
    refine inductionHypothesis (Nat.lt_trans older recent) plain
      (fun grand outerContext closure above outerAnchored => ?_) (by omega)
    obtain ⟨_, same, olderStill, -⟩ := grounded.parents (Nat.lt_trans older recent) closure
    cases above.symm.trans same
    have lower := grounded.ordered outerAnchored anchored olderStill
    omega

/-- Whom a live activation finds, if that is the receiver of its method. -/
theorem Grounded.homeReceiver (grounded : chronicle.Grounded machine.heap.scene homes)
    (follows : chronicle.Follows (fun _ => False) machine.heap.scene homes) {live : Home}
    (pair : (serial, live) ∈ chronicle.live.zip homes) (nested : chronicle.NestedIn serial home) :
    live.frame.homeReceiver machine = .ok (chronicle.chapter home).receiver machine ↔
      ¬machine.heap.scene.HoldsContext (chronicle.chapter home).receiver := by
  have recent := follows.recent serial (List.of_mem_zip pair).1
  have receives : live.frame.receiver = (chronicle.chapter serial).receiver := by
    rw [Frame.receiver, Array.getD_eq_getD_getElem?, grounded.frames _ pair]
    rfl
  rw [Frame.homeReceiver_eq, receives]
  refine ⟨Frame.plain_of_homeReceiverFrom, fun plain => ?_⟩
  refine grounded.homeReceiverFrom nested recent plain (fun parent context _ _ anchored => ?_)
    (Nat.succ_pos _)
  have has : context.index < machine.heap.contexts.size := (follows.owned anchored).2.1
  omega

end Chronicle

/-- The messages about unknown globals and escaped blocks go to a receiver. -/
structure Activation.Asks (activation : Activation) (machine : Machine) (receiver : Value) :
    Prop where
  global : ∀ offset literal name,
    activation.literal offset literal machine = .ok (.symbol name) machine →
    machine.globals.get? name = none →
    activation.globalAttempt offset literal machine =
      (do
        let made ← Engine.messageCall receiver machine.selectors.unknownGlobal [.symbol name]
        return Attempt.call made activation .push) machine
  escape : activation.escapeCall machine =
    Engine.messageCall receiver machine.selectors.escapedBlock [activation.frame.receiver] machine

/-- They go to whom the walk finds. -/
theorem Activation.asks_of_homeReceiver {activation : Activation} {machine : Machine}
    {receiver : Value} (found : activation.frame.homeReceiver machine = .ok receiver machine) :
    activation.Asks machine receiver where
  global offset literal name read unknown := by
    have here : (get : Engine Machine) machine = .ok machine machine := rfl
    rw [globalAttempt, Engine.bind_of_ok read]
    dsimp only
    rw [Engine.bind_of_ok here, unknown]
    dsimp only
    rw [Engine.bind_of_ok found, Engine.bind_of_ok here]
  escape := by
    have here : (get : Engine Machine) machine = .ok machine machine := rfl
    rw [escapeCall, Engine.bind_of_ok found, Engine.bind_of_ok here]

/--
Take any program whose methods have placed their variables, in which nothing is stored where a
receiver is kept, and whatever its host does between two runs. Every live activation is nested
in one of a method, by the activations that made the blocks in between, whether those are still
live or not. The walk from block to block finds the receiver of that method exactly if it is no
block that holds a context; then it is the one that is told of unknown globals and of blocks
that have escaped.
-/
theorem home_receiver_unless_block {chronicle : Chronicle} {state : State}
    (recounted : Recounted chronicle state) :
    chronicle.live.length = state.homes.length ∧
    (∀ serial live, (serial, live) ∈ chronicle.live.zip state.homes →
      ∃ home, chronicle.NestedIn serial home ∧
        (live.frame.homeReceiver state.machine =
            .ok (chronicle.chapter home).receiver state.machine ↔
          ¬state.scene.HoldsContext (chronicle.chapter home).receiver)) ∧
    ∀ leg live, state.focus = .turn leg live →
      ∃ serial home, chronicle.live.head? = some serial ∧ chronicle.NestedIn serial home ∧
        (¬state.scene.HoldsContext (chronicle.chapter home).receiver →
          live.activation.Asks state.machine (chronicle.chapter home).receiver) := by
  have follows := recounted.follows
  have grounded := recounted.grounded
  have finds (serial : Nat) (live : Home) (pair : (serial, live) ∈ chronicle.live.zip state.homes) :
      ∃ home, chronicle.NestedIn serial home ∧
        (live.frame.homeReceiver state.machine =
            .ok (chronicle.chapter home).receiver state.machine ↔
          ¬state.scene.HoldsContext (chronicle.chapter home).receiver) := by
    obtain ⟨home, nested⟩ :=
      grounded.nestedIn (follows.recent serial (List.of_mem_zip pair).1)
    exact ⟨home, nested, grounded.homeReceiver follows pair nested⟩
  refine ⟨follows.accounts.length_eq, finds, fun leg live turns => ?_⟩
  have homes := State.homes_of_turn turns
  obtain ⟨serial, innermost, -⟩ := follows.accounts.head (by rw [homes, List.head?_cons])
  have pair : (serial, live.home) ∈ chronicle.live.zip state.homes := by
    obtain ⟨rest, first⟩ := List.head?_eq_some_iff.mp innermost
    rw [homes, first, List.zip_cons_cons]
    exact List.mem_cons_self
  obtain ⟨home, nested, found⟩ := finds serial live.home pair
  exact ⟨serial, home, innermost, nested, fun plain =>
    Activation.asks_of_homeReceiver (found.mpr plain)⟩

/-! ### A method of blocks -/

namespace State

/-- A step stores into no slot that may hold a receiver. -/
def sparing (state : State) : Bool :=
  match state.deed with
  | .storeFrame slot _ | .storeContext _ slot _ => slot != 0
  | _ => true

theorem sparesReceivers {state : State} (placed : state.scene.Placed)
    (sparing : state.sparing = true) : state.SparesReceivers := by
  refine ⟨placed, fun slot value does => ?_, fun context slot value does => ?_⟩ <;>
  · rw [State.sparing, does] at sparing
    simpa using sparing

theorem methods_of_step {before after : State} (stepped : before.step = some after) :
    after.scene.methods = before.scene.methods := by
  cases Chronicle.blank.advances (goes_step stepped) with
  | perform scene _ _ => rw [scene, Deed.methods_scene]
  | begin _ scene _ _ => rw [scene, Live.methods_started]
  | reject scene _ _ => rw [scene, Live.methods_started]
  | close _ scene _ => rw [scene, Scene.methods_finish, Deed.methods_scene]

end State

/-- The chronicle and the state some steps later, none of which replaces a receiver. -/
def Chronicle.retell? : (count : Nat) → Chronicle × State → Option (Chronicle × State)
  | 0, told => some told
  | count + 1, (chronicle, state) =>
    if state.sparing then
      state.step.bind fun after => retell? count (chronicle.next state after, after)
    else none

theorem Recounted.retell {count : Nat} {first last : Chronicle × State}
    (recounted : Recounted first.1 first.2) (placed : first.2.scene.Placed)
    (leads : Chronicle.retell? count first = some last) : Recounted last.1 last.2 := by
  induction count generalizing first with
  | zero =>
    cases leads
    exact recounted
  | succ count inductionHypothesis =>
    obtain ⟨chronicle, state⟩ := first
    rw [Chronicle.retell?] at leads
    split at leads
    · rename_i sparing
      obtain ⟨after, stepped, leads⟩ := Option.bind_eq_some_iff.mp leads
      refine inductionHypothesis
        (.stepped recounted (State.sparesReceivers placed sparing) stepped) ?_ leads
      unfold Scene.Placed at placed ⊢
      rw [State.methods_of_step stepped]
      exact placed
    · cases leads

namespace State

/-- Every class understands `value`, by a primitive, and `ask`, by a method. -/
def askingHeap : Heap :=
  { (default : Heap) with
    symbols := (SymbolTable.intern (SymbolTable.intern {} "value").2 "ask").2
    classes := ⟨Array.replicate CoreClass.all.length
      { (default : Class) with
        methods := (({} : Dictionary Invokable).insert ⟨0⟩ (.primitive ⟨0⟩)).insert ⟨1⟩
          (.method ⟨1⟩) }⟩
    primitives := ⟨#[⟨⟨0⟩, OperationEntry.table.idxOf .blockValue, none⟩]⟩ }

/-- A block of the home. -/
def askingBlock : Method :=
  { (default : Method) with
    scope := (Scope.outermost (.of [] [] true)).nested (.of [] [] false)
    code := ([.pushNil, .returnLocal] : List Instruction).flatMap Instruction.encode |>.toArray
    maxStack := 1 }

/-- The method for `ask`, which looks up a global that nobody has defined. -/
def asker : Method :=
  { (default : Method) with
    scope := .outermost (.of [] [] false)
    literals := #[.symbol ⟨0⟩]
    code := ([.pushGlobal 0, .returnLocal] : List Instruction).flatMap Instruction.encode |>.toArray
    maxStack := 1 }

/-- Makes a block and evaluates it, and sends `ask` to another one. -/
def askingHome : Method :=
  { (default : Method) with
    scope := .outermost (.of [] [] true)
    literals := #[.invokable (.method ⟨0⟩), .symbol ⟨0⟩, .symbol ⟨1⟩]
    code := ([.pushBlock 0 true, .send 1 .one, .pop, .pushBlock 0 true, .send 2 .one,
      .returnLocal] : List Instruction).flatMap Instruction.encode |>.toArray
    maxStack := 1 }

def askingMachine : Machine :=
  { (default : Machine) with
    heap := (((askingHeap.addMethod askingBlock).2.addMethod asker).2.addMethod askingHome).2
    config := { maxDepth := 2 } }

/-- The call of the home on its machine. -/
def askingState : State := ⟨askingMachine, .call ⟨.method ⟨2⟩, .nil, .none⟩, []⟩

theorem placed_asking : askingState.scene.Placed := by
  intro method has
  match method, has with
  | ⟨0⟩, _ => exact ⟨[], [], false, rfl⟩
  | ⟨1⟩, _ => exact ⟨[], [], false, rfl⟩
  | ⟨2⟩, _ => exact ⟨[], [], true, rfl⟩
  | ⟨index + 3⟩, has =>
    have beyond : index + 3 < 3 := has
    omega

theorem recounted_asking : Recounted .blank askingState :=
  .called (.first (show askingMachine.heap.blocks.size = 0 from rfl)) rfl _

/-- The first block of the home is evaluated. -/
def evaluatesBlock (told : Chronicle × State) : Bool :=
  decide (told.1.live = [1, 0] ∧ (told.1.chapter 1).closure = true ∧
    (told.1.chapter 1).parent = some 0 ∧ (told.1.chapter 0).closure = false ∧
    (told.1.chapter 0).receiver = .nil) &&
  match told.2.focus with
  | .turn _ _ => true
  | _ => false

theorem block_asks_home_receiver :
    ∃ chronicle state leg live, Recounted chronicle state ∧ state.focus = .turn leg live ∧
      chronicle.live = [1, 0] ∧ chronicle.NestedIn 1 0 ∧
      ¬state.scene.HoldsContext (chronicle.chapter 0).receiver ∧
      live.activation.Asks state.machine .nil := by
  have tells : (Chronicle.retell? 7 (.blank, askingState)).any evaluatesBlock = true := by
    decide +kernel
  obtain ⟨⟨chronicle, state⟩, leads, evaluates⟩ := (Option.any_eq_true _ _).mp tells
  have recounted := recounted_asking.retell placed_asking leads
  unfold evaluatesBlock at evaluates
  rw [Bool.and_eq_true, decide_eq_true_iff] at evaluates
  obtain ⟨⟨twice, closure, known, plain, nil⟩, turns⟩ := evaluates
  split at turns
  · rename_i leg live focus
    obtain ⟨serial, home, innermost, nested, asks⟩ :=
      (home_receiver_unless_block recounted).2.2 leg live focus
    rw [twice] at innermost
    cases innermost
    obtain rfl : home = 0 := by
      cases nested with
      | itself own => exact Bool.noConfusion (own.symm.trans closure)
      | block _ other outer =>
        cases known.symm.trans other
        cases outer with
        | itself => rfl
        | block closed => exact Bool.noConfusion (plain.symm.trans closed)
    have holds : ¬state.scene.HoldsContext (chronicle.chapter 0).receiver := by
      rw [nil]
      rintro ⟨_, _, same, -⟩
      cases same
    exact ⟨chronicle, state, leg, live, recounted, focus, twice, nested, holds, nil ▸ asks holds⟩
  · cases turns

/-- The method for `ask` runs, on the other block. -/
def looksElsewhere (told : Chronicle × State) : Bool :=
  decide (told.1.live = [2, 0] ∧ (told.1.chapter 2).closure = false ∧
    (told.1.chapter 2).receiver = .block ⟨1⟩) &&
  match told.2.focus with
  | .turn _ live =>
    decide (Frame.homeReceiverFrom told.2.machine.heap (told.2.machine.heap.contexts.size + 2)
      live.activation.frame.receiver = some .nil)
  | _ => false

/-- A method that is called on a block is passed by: the receiver of another method is asked. -/
theorem method_on_block_asks_elsewhere :
    ∃ chronicle state leg live, Recounted chronicle state ∧ state.focus = .turn leg live ∧
      chronicle.live = [2, 0] ∧ chronicle.NestedIn 2 2 ∧
      (chronicle.chapter 2).receiver = .block ⟨1⟩ ∧
      live.activation.frame.homeReceiver state.machine = .ok .nil state.machine ∧
      live.activation.Asks state.machine .nil := by
  have tells : (Chronicle.retell? 16 (.blank, askingState)).any looksElsewhere = true := by
    decide +kernel
  obtain ⟨⟨chronicle, state⟩, leads, looks⟩ := (Option.any_eq_true _ _).mp tells
  have recounted := recounted_asking.retell placed_asking leads
  unfold looksElsewhere at looks
  rw [Bool.and_eq_true, decide_eq_true_iff] at looks
  obtain ⟨⟨live, plain, receiver⟩, turns⟩ := looks
  split at turns
  · rename_i leg activation focus
    have found := Frame.homeReceiver_eq.mpr (of_decide_eq_true turns)
    exact ⟨chronicle, state, leg, activation, recounted, focus, live, .itself plain, receiver,
      found, Activation.asks_of_homeReceiver found⟩
  · cases turns

end State

end ObjectMachine
