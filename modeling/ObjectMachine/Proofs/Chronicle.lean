/-
This file keeps a chronicle beside a run. It numbers the activations, remembers which of them
made a block, and gives each variables of its own, known by kind and index and not by any
slot. The machine never looks at it. What is shown is that slots follow it: those of a live
frame and those of every context, whether its activation is still live or not, hold what the
variables hold that have their places there.
-/

import ObjectMachine.Proofs.Homes
import ObjectMachine.Proofs.Placement
import ObjectMachine.Proofs.Readiness

namespace ObjectMachine

/-! ### Chronicles -/

/-- What is remembered of an activation. -/
structure Chapter where
  method : MethodId
  scope : Scope
  context : Option ContextId
  receiver : Value
  /-- Whether this one evaluates a block that holds a context. -/
  closure : Bool
  /-- The activation that made that block. -/
  parent : Option Nat
  memory : VariableKind → Nat → Value
deriving Inhabited

structure Chronicle where
  /-- How many activations there have been. -/
  started : Nat
  chapter : Nat → Chapter
  /-- The live ones, the innermost first. -/
  live : List Nat
  maker : BlockId → Option Nat

namespace Chapter

/-- What a variable holds; argument zero is the receiver. -/
def value (chapter : Chapter) : VariableKind → Nat → Value
  | .argument, 0 => chapter.receiver
  | kind, index => chapter.memory kind index

/-- Stores into the variable that has a place. -/
def put (chapter : Chapter) (place : VariablePlace) (value : Value) : Chapter :=
  { chapter with
    memory := fun kind index =>
      if chapter.scope.own.placeOf? kind index = some place then value
      else chapter.memory kind index }

end Chapter

/-- A method is to evaluate a block of its own that holds a context. -/
def Scene.isClosure (scene : Scene) (method : MethodId) : Value → Bool
  | .block block =>
    (scene.blocks.get block).method = method ∧ (scene.blocks.get block).context.isSome
  | _ => false

namespace Chronicle

def blank : Chronicle := ⟨0, fun _ => default, [], fun _ => none⟩

/-- The activation that a receiver, evaluated by a method, was made in. -/
def parentOf (chronicle : Chronicle) (scene : Scene) (method : MethodId) : Value → Option Nat
  | .block block =>
    if scene.isClosure method (.block block) then chronicle.maker block else none
  | _ => none

/-- An activation starts. -/
def begin (chronicle : Chronicle) (scene : Scene) (method : MethodId) (receiver : Value)
    (arguments : List Value) : Chronicle :=
  { chronicle with
    started := chronicle.started + 1
    live := chronicle.started :: chronicle.live
    chapter := fun serial =>
      if serial = chronicle.started then
        { method
          scope := (scene.methods.get method).scope
          context := scene.startContext (scene.methods.get method)
          receiver
          closure := scene.isClosure method receiver
          parent := chronicle.parentOf scene method receiver
          memory := ScopeLevel.fresh arguments }
      else chronicle.chapter serial }

/-- A deed is done in the innermost activation. -/
def perform (chronicle : Chronicle) (scene : Scene) : Deed → Chronicle
  | .nothing => chronicle
  | .makeBlock _ =>
    { chronicle with
      maker := fun block =>
        if block = scene.blocks.next then chronicle.live.head? else chronicle.maker block }
  | .storeFrame slot value =>
    { chronicle with
      chapter := fun serial =>
        if chronicle.live.head? = some serial then
          (chronicle.chapter serial).put (.frame slot) value
        else chronicle.chapter serial }
  | .storeContext context slot value =>
    { chronicle with
      chapter := fun serial =>
        if (chronicle.chapter serial).context = some context then
          (chronicle.chapter serial).put (.inner slot) value
        else chronicle.chapter serial }

/-- The innermost activation ends. -/
def close (chronicle : Chronicle) : Chronicle := { chronicle with live := chronicle.live.tail }

/-- The chronicle after a step. -/
def next (chronicle : Chronicle) (before after : State) : Chronicle :=
  if before.homes.length < after.homes.length then
    match before.focus with
    | .call ⟨.method method, receiver, arguments⟩ =>
      chronicle.begin before.scene method receiver arguments.toList
    | _ => chronicle
  else if after.homes.length < before.homes.length then
    (chronicle.perform before.scene before.deed).close
  else chronicle.perform before.scene before.deed

end Chronicle

/-! ### Rules -/

/-- Every variable has a slot of its own, within reach of an operand. -/
structure ScopeLevel.Addressable (level : ScopeLevel) : Prop where
  settled : level.Settled
  frameSize : level.frameSize ≤ 256
  innerSize : level.innerSize ≤ 256

theorem ScopeLevel.addressable_default : Addressable default :=
  ⟨settled_default, by decide, by decide⟩

/--
What the next deed may be where a family of methods runs. A block of the family that holds a
context is made in the family, by the method that its scope is nested in. No activation of
the family has a value stored in place of its receiver.
-/
structure Chronicle.Obeys (family : MethodId → Prop) (chronicle : Chronicle) (state : State) :
    Prop where
  levels : ∀ method, family method → (state.scene.methods.get method).scope.own.Addressable
  blocks : ∀ block context, state.deed = .makeBlock block → family block.method →
    block.context = some context → state.scene.methods.Has block.method ∧
      ∀ home, state.homes.head? = some home → family home.method ∧
        (state.scene.methods.get block.method).scope =
          (state.scene.methods.get home.method).scope.nested
            (state.scene.methods.get block.method).scope.own
  frames : ∀ slot value, state.deed = .storeFrame slot value →
    ∀ home, state.homes.head? = some home → family home.method → slot ≠ 0
  contexts : ∀ context slot value, state.deed = .storeContext context slot value →
    ∀ serial, (chronicle.chapter serial).context = some context →
      family (chronicle.chapter serial).method → slot ≠ 0

/-! ### What slots hold -/

/-- What is so of a live activation. -/
structure Chapter.Lives (family : MethodId → Prop) (scene : Scene) (chapter : Chapter)
    (home : Home) : Prop where
  method : chapter.method = home.method
  context : chapter.context = home.context
  framed : home.frame.context = home.context
  scope : (scene.methods.get home.method).scope = chapter.scope
  slots : family home.method → chapter.scope.own.Holds VariablePlace.frameSlot? home.frame.slots
    chapter.receiver chapter.memory

/-- What is so of an activation for good. -/
structure Chapter.Sound (chapter : Chapter) : Prop where
  addressable : chapter.scope.own.Addressable
  opened : chapter.context = none ↔ chapter.scope.own.innerSize = 0
  enclosed : chapter.closure = true → chapter.parent.isSome

namespace Chronicle

/-- Every live activation is accounted for, in order. -/
inductive Accounts (family : MethodId → Prop) (scene : Scene) (chapter : Nat → Chapter) :
    List Nat → List Home → Prop
  | nil : Accounts family scene chapter [] []
  | cons {serial : Nat} {home : Home} {live : List Nat} {homes : List Home}
    (lives : (chapter serial).Lives family scene home)
    (rest : Accounts family scene chapter live homes) :
    Accounts family scene chapter (serial :: live) (home :: homes)

/-- A chapter is nested in another one, whose context its block holds. -/
structure Nested (family : MethodId → Prop) (scene : Scene) (inner outer : Chapter) : Prop where
  captured : ∃ block context, inner.receiver = .block block ∧
    (scene.blocks.get block).context = some context ∧ outer.context = some context
  family : family outer.method
  scope : inner.scope.outer = outer.scope.own :: outer.scope.outer

/-- Slots follow the chronicle. -/
structure Follows (family : MethodId → Prop) (chronicle : Chronicle) (scene : Scene)
    (homes : List Home) : Prop where
  accounts : Accounts family scene chronicle.chapter chronicle.live homes
  recent : ∀ serial ∈ chronicle.live, serial < chronicle.started
  distinct : chronicle.live.Nodup
  /-- A context belongs to an activation for good. -/
  owned : ∀ {serial context}, (chronicle.chapter serial).context = some context →
    serial < chronicle.started ∧ scene.contexts.Has context ∧
      (family (chronicle.chapter serial).method →
        (chronicle.chapter serial).scope.own.Holds VariablePlace.innerSlot?
          (scene.contexts.get context).slots (chronicle.chapter serial).receiver
          (chronicle.chapter serial).memory)
  apart : ∀ {first second context}, (chronicle.chapter first).context = some context →
    (chronicle.chapter second).context = some context → first = second
  sound : ∀ {serial}, serial < chronicle.started →
    family (chronicle.chapter serial).method → (chronicle.chapter serial).Sound
  /-- A block that holds a context was made where the context belongs. -/
  made : ∀ {block context}, family (scene.blocks.get block).method →
    (scene.blocks.get block).context = some context →
      scene.methods.Has (scene.blocks.get block).method ∧
        ∃ maker, chronicle.maker block = some maker ∧
          family (chronicle.chapter maker).method ∧
          (chronicle.chapter maker).context = some context ∧
          (scene.methods.get (scene.blocks.get block).method).scope.outer =
            (chronicle.chapter maker).scope.own :: (chronicle.chapter maker).scope.outer
  parents : ∀ {serial parent}, serial < chronicle.started →
    family (chronicle.chapter serial).method →
      (chronicle.chapter serial).parent = some parent →
        Nested family scene (chronicle.chapter serial) (chronicle.chapter parent)

/-! ### Deeds -/

section

variable {family : MethodId → Prop} {chronicle : Chronicle} {scene after : Scene}
  {homes : List Home} {deed : Deed}

theorem Accounts.imp {chapter other : Nat → Chapter} {live : List Nat}
    (accounts : Accounts family scene chapter live homes)
    (implies : ∀ serial ∈ live, ∀ home, (chapter serial).Lives family scene home →
      (other serial).Lives family after home) :
    Accounts family after other live homes := by
  induction accounts with
  | nil => exact .nil
  | cons lives _ inductionHypothesis =>
    refine .cons (implies _ List.mem_cons_self _ lives) (inductionHypothesis ?_)
    exact fun serial member => implies serial (List.mem_cons_of_mem _ member)

theorem Accounts.length_eq {chapter : Nat → Chapter} {live : List Nat}
    (accounts : Accounts family scene chapter live homes) : live.length = homes.length := by
  induction accounts with
  | nil => rfl
  | cons _ _ inductionHypothesis => exact congrArg (· + 1) inductionHypothesis

@[simp] theorem started_perform : (chronicle.perform scene deed).started = chronicle.started := by
  cases deed <;> rfl

@[simp] theorem live_perform : (chronicle.perform scene deed).live = chronicle.live := by
  cases deed <;> rfl

/-- A deed changes nothing of a chapter but its variables. -/
theorem chapter_perform (chronicle : Chronicle) (scene : Scene) (deed : Deed) (serial : Nat) :
    ∃ memory, (chronicle.perform scene deed).chapter serial =
      { chronicle.chapter serial with memory } := by
  cases deed with
  | nothing | makeBlock => exact ⟨_, rfl⟩
  | storeFrame slot value =>
    simp only [perform]
    split <;> exact ⟨_, rfl⟩
  | storeContext context slot value =>
    simp only [perform]
    split <;> exact ⟨_, rfl⟩

section

variable (serial : Nat)

@[simp] theorem method_perform : ((chronicle.perform scene deed).chapter serial).method =
    (chronicle.chapter serial).method := by
  obtain ⟨memory, same⟩ := chronicle.chapter_perform scene deed serial
  rw [same]

@[simp] theorem scope_perform : ((chronicle.perform scene deed).chapter serial).scope =
    (chronicle.chapter serial).scope := by
  obtain ⟨memory, same⟩ := chronicle.chapter_perform scene deed serial
  rw [same]

@[simp] theorem context_perform : ((chronicle.perform scene deed).chapter serial).context =
    (chronicle.chapter serial).context := by
  obtain ⟨memory, same⟩ := chronicle.chapter_perform scene deed serial
  rw [same]

@[simp] theorem receiver_perform : ((chronicle.perform scene deed).chapter serial).receiver =
    (chronicle.chapter serial).receiver := by
  obtain ⟨memory, same⟩ := chronicle.chapter_perform scene deed serial
  rw [same]

@[simp] theorem parent_perform : ((chronicle.perform scene deed).chapter serial).parent =
    (chronicle.chapter serial).parent := by
  obtain ⟨memory, same⟩ := chronicle.chapter_perform scene deed serial
  rw [same]

end

theorem Nested.of_memory {inner outer : Chapter} {first second : VariableKind → Nat → Value}
    (nested : Nested family scene inner outer)
    (blocks : ∀ block context, (scene.blocks.get block).context = some context →
      after.blocks.get block = scene.blocks.get block) :
    Nested family after { inner with memory := first } { outer with memory := second } where
  captured := by
    obtain ⟨block, context, receiver, captured, anchored⟩ := nested.captured
    exact ⟨block, context, receiver, blocks block context captured ▸ captured, anchored⟩
  family := nested.family
  scope := nested.scope

theorem Accounts.head {chapter : Nat → Chapter} {live : List Nat}
    (accounts : Accounts family scene chapter live homes) {home : Home}
    (innermost : homes.head? = some home) :
    ∃ serial, live.head? = some serial ∧ (chapter serial).Lives family scene home := by
  cases accounts with
  | nil => cases innermost
  | cons lives _ =>
    cases innermost
    exact ⟨_, rfl, lives⟩

/-- Only blocks that are there hold a context. -/
theorem has_block {block : BlockId} {context : ContextId}
    (captured : (scene.blocks.get block).context = some context) : scene.blocks.Has block := by
  refine Decidable.of_not_not fun absent => ?_
  rw [Table.get_of_not_has _ _ absent] at captured
  cases captured

/-- A block is made. -/
theorem Follows.makeBlock (follows : chronicle.Follows family scene homes) {block : Block}
    (belongs : family block.method → ∀ context, block.context = some context →
      scene.methods.Has block.method ∧ ∀ home, homes.head? = some home →
        family home.method ∧ (scene.methods.get block.method).scope =
          (scene.methods.get home.method).scope.nested
            (scene.methods.get block.method).scope.own)
    (made : ∀ context, block.context = some context →
      ∃ home, homes.head? = some home ∧ home.context = some context) :
    (chronicle.perform scene (.makeBlock block)).Follows family
      ((Deed.makeBlock block).scene scene) homes where
  accounts := follows.accounts.imp fun _ _ _ lives =>
    ⟨lives.method, lives.context, lives.framed, lives.scope, lives.slots⟩
  recent := follows.recent
  distinct := follows.distinct
  owned := follows.owned
  apart := follows.apart
  sound := follows.sound
  made {other context} member captured := by
    rw [show ((Deed.makeBlock block).scene scene).blocks = scene.blocks.add block from rfl]
      at member captured ⊢
    by_cases new : other = scene.blocks.next
    · subst new
      rw [Table.get_add_next] at member captured ⊢
      obtain ⟨has, nests⟩ := belongs member context captured
      obtain ⟨home, innermost, anchored⟩ := made context captured
      obtain ⟨serial, first, lives⟩ := follows.accounts.head innermost
      obtain ⟨kin, scope⟩ := nests home innermost
      refine ⟨has, serial, ?_, lives.method ▸ kin, lives.context.trans anchored, ?_⟩
      · simp only [perform, if_true, first]
      · show (scene.methods.get block.method).scope.outer = _
        rw [scope, Scope.nested, lives.scope]
        rfl
    · rw [Table.get_add_of_ne _ _ _ new] at member captured ⊢
      obtain ⟨has, maker, found, rest⟩ := follows.made member captured
      refine ⟨has, maker, ?_, rest⟩
      simp only [perform, if_neg new, found]
  parents {serial parent} recent member found := by
    refine (follows.parents recent member found).of_memory fun other context captured => ?_
    exact Table.get_add_of_has _ _ _ (has_block captured)

theorem Accounts.storeFrame {chapter : Nat → Chapter} {live : List Nat}
    (accounts : Accounts family scene chapter live homes) (distinct : live.Nodup) {slot : Nat}
    {value : Value}
    (other : ∀ home, homes.head? = some home → family home.method → slot ≠ 0) :
    Accounts family scene
      (fun serial => if live.head? = some serial then (chapter serial).put (.frame slot) value
        else chapter serial) live ((Deed.storeFrame slot value).homes homes) := by
  cases accounts with
  | nil => exact .nil
  | @cons serial home live homes lives rest =>
    refine .cons ?_ (rest.imp fun outer member home lives => ?_)
    · rw [List.head?_cons, if_pos rfl]
      refine ⟨lives.method, lives.context, lives.framed, lives.scope, fun member => ?_⟩
      exact (lives.slots member).store VariablePlace.slotted_frame rfl (other home rfl member) value
    · have apart : serial ≠ outer := fun same =>
        (List.nodup_cons.mp distinct).1 (same ▸ member)
      rw [List.head?_cons, if_neg fun same => apart (Option.some.inj same)]
      exact lives

/-- What chapters are about but their variables is as before after a deed. -/
theorem Follows.perform (follows : chronicle.Follows family scene homes) {outer : List Home}
    (blocks : (deed.scene scene).blocks = scene.blocks)
    (methods : (deed.scene scene).methods = scene.methods)
    (makers : (chronicle.perform scene deed).maker = chronicle.maker)
    (accounts : Accounts family (deed.scene scene) (chronicle.perform scene deed).chapter
      chronicle.live outer)
    (holds : ∀ serial context, (chronicle.chapter serial).context = some context →
      family (chronicle.chapter serial).method →
        (chronicle.chapter serial).scope.own.Holds VariablePlace.innerSlot?
          ((deed.scene scene).contexts.get context).slots (chronicle.chapter serial).receiver
          ((chronicle.perform scene deed).chapter serial).memory) :
    (chronicle.perform scene deed).Follows family (deed.scene scene) outer where
  accounts := by
    rw [live_perform]
    exact accounts
  recent := by
    rw [live_perform, started_perform]
    exact follows.recent
  distinct := by
    rw [live_perform]
    exact follows.distinct
  owned {serial context} anchored := by
    rw [context_perform] at anchored
    rw [started_perform, Deed.has_context_scene, method_perform, scope_perform, receiver_perform]
    obtain ⟨recent, has, -⟩ := follows.owned anchored
    exact ⟨recent, has, holds serial context anchored⟩
  apart {first second context} left right := by
    rw [context_perform] at left right
    exact follows.apart left right
  sound {serial} recent member := by
    rw [started_perform] at recent
    rw [method_perform] at member
    obtain ⟨memory, same⟩ := chronicle.chapter_perform scene deed serial
    obtain ⟨addressable, opened, enclosed⟩ := follows.sound recent member
    rw [same]
    exact ⟨addressable, opened, enclosed⟩
  made {block context} member captured := by
    rw [blocks] at member captured ⊢
    simp only [methods, makers, method_perform, context_perform, scope_perform]
    exact follows.made member captured
  parents {serial parent} recent member found := by
    rw [started_perform] at recent
    rw [method_perform] at member
    rw [parent_perform] at found
    obtain ⟨first, inner⟩ := chronicle.chapter_perform scene deed serial
    obtain ⟨second, outer⟩ := chronicle.chapter_perform scene deed parent
    rw [inner, outer]
    refine (follows.parents recent member found).of_memory fun block context _ => ?_
    rw [blocks]

/-- A value is stored into the frame of the innermost activation. -/
theorem Follows.storeFrame (follows : chronicle.Follows family scene homes) {slot : Nat}
    {value : Value}
    (other : ∀ home, homes.head? = some home → family home.method → slot ≠ 0) :
    (chronicle.perform scene (.storeFrame slot value)).Follows family
      ((Deed.storeFrame slot value).scene scene) ((Deed.storeFrame slot value).homes homes) := by
  refine follows.perform rfl rfl rfl (follows.accounts.storeFrame follows.distinct other)
    fun serial context anchored member => ?_
  have holds := (follows.owned anchored).2.2 member
  simp only [Chronicle.perform]
  split
  · exact holds.elsewhere rfl value
  · exact holds

/-- A value is stored into a context. -/
theorem Follows.storeContext (follows : chronicle.Follows family scene homes)
    {target : ContextId} {slot : Nat} {value : Value}
    (other : ∀ serial, (chronicle.chapter serial).context = some target →
      family (chronicle.chapter serial).method → slot ≠ 0) :
    (chronicle.perform scene (.storeContext target slot value)).Follows family
      ((Deed.storeContext target slot value).scene scene) homes := by
  refine follows.perform rfl rfl rfl (follows.accounts.imp fun serial _ home lives => ?_)
    fun serial context anchored member => ?_
  · simp only [Chronicle.perform]
    split
    · refine ⟨lives.method, lives.context, lives.framed, lives.scope, fun member => ?_⟩
      exact (lives.slots member).elsewhere rfl value
    · exact ⟨lives.method, lives.context, lives.framed, lives.scope, lives.slots⟩
  · obtain ⟨-, has, holds⟩ := follows.owned anchored
    have holds := holds member
    simp only [Chronicle.perform]
    show ScopeLevel.Holds _ _ ((scene.contexts.modify target _).get context).slots _ _
    by_cases here : context = target
    · subst here
      rw [if_pos anchored, Table.get_modify_self _ _ _ has]
      exact holds.store VariablePlace.slotted_inner rfl (other serial anchored member) value
    · rw [if_neg fun same => here (Option.some.inj (anchored.symm.trans same)),
        Table.get_modify_of_ne _ _ _ _ here]
      exact holds

/-- One deed of the innermost activation, done by the rules. -/
theorem Follows.performed (follows : chronicle.Follows family scene homes) (deed : Deed)
    (made : ∀ block context, deed = .makeBlock block → block.context = some context →
      (∃ home, homes.head? = some home ∧ home.context = some context) ∧
        (family block.method → scene.methods.Has block.method ∧
          ∀ home, homes.head? = some home → family home.method ∧
            (scene.methods.get block.method).scope =
              (scene.methods.get home.method).scope.nested
                (scene.methods.get block.method).scope.own))
    (frames : ∀ slot value, deed = .storeFrame slot value →
      ∀ home, homes.head? = some home → family home.method → slot ≠ 0)
    (contexts : ∀ context slot value, deed = .storeContext context slot value →
      ∀ serial, (chronicle.chapter serial).context = some context →
        family (chronicle.chapter serial).method → slot ≠ 0) :
    (chronicle.perform scene deed).Follows family (deed.scene scene) (deed.homes homes) := by
  cases deed with
  | nothing =>
    rw [Deed.homes_nothing]
    exact follows
  | makeBlock block =>
    have same : (Deed.makeBlock block).homes homes = homes := by cases homes <;> rfl
    rw [same]
    exact follows.makeBlock (fun member context captured => (made _ _ rfl captured).2 member)
      fun context captured => (made _ _ rfl captured).1
  | storeFrame slot value => exact follows.storeFrame (frames slot value rfl)
  | storeContext target slot value =>
    have same : (Deed.storeContext target slot value).homes homes = homes := by
      cases homes <;> rfl
    rw [same]
    exact follows.storeContext (contexts target slot value rfl)

/-! ### Starts and ends -/

/-- A start that fails touches nothing that there was. -/
theorem Follows.started (follows : chronicle.Follows family scene homes) {code : Method}
    {receiver : Value} {puts : List (VariablePlace × Value)} :
    chronicle.Follows family (scene.started code receiver puts) homes where
  accounts := follows.accounts.imp fun serial _ home lives =>
    ⟨lives.method, lives.context, lives.framed,
      (Live.methods_started scene code receiver puts).symm ▸ lives.scope, lives.slots⟩
  recent := follows.recent
  distinct := follows.distinct
  owned anchored := by
    obtain ⟨recent, has, holds⟩ := follows.owned anchored
    obtain ⟨stays, same⟩ := Scene.Links.has_started has
    rw [same]
    exact ⟨recent, stays, holds⟩
  apart := follows.apart
  sound := follows.sound
  made member captured := by
    rw [Scene.Links.blocks_started] at member captured ⊢
    rw [Live.methods_started]
    exact follows.made member captured
  parents recent member found := by
    refine (follows.parents recent member found).of_memory fun block context _ => ?_
    rw [Scene.Links.blocks_started]

section

variable {method : MethodId} {receiver : Value} {values : List Value} {serial : Nat}
  {context : ContextId}

theorem chapter_begin_of_ne (other : serial ≠ chronicle.started) :
    (chronicle.begin scene method receiver values).chapter serial = chronicle.chapter serial :=
  if_neg other

theorem chapter_begin_self :
    (chronicle.begin scene method receiver values).chapter chronicle.started =
      { method
        scope := (scene.methods.get method).scope
        context := scene.startContext (scene.methods.get method)
        receiver
        closure := scene.isClosure method receiver
        parent := chronicle.parentOf scene method receiver
        memory := ScopeLevel.fresh values } :=
  if_pos rfl

/-- The context of an activation that starts holds its captured variables. -/
theorem holds_started {code : Method} (settled : code.scope.own.Settled)
    (opened : scene.startContext code = some context) :
    code.scope.own.Holds VariablePlace.innerSlot?
      ((scene.started code receiver (code.scope.own.arguments.zip values)).contexts.get
        context).slots receiver (ScopeLevel.fresh values) := by
  unfold Scene.startContext at opened
  split at opened
  · cases opened
  · rename_i nonempty
    cases opened
    rw [Scene.started, if_neg nonempty, Table.get_add_next]
    exact settled.holds_fresh VariablePlace.slotted_inner settled.innerSlot values

theorem startContext_eq_none {code : Method} :
    scene.startContext code = none ↔ code.scope.own.innerSize = 0 := by
  unfold Scene.startContext
  split
  · rename_i empty
    exact ⟨fun _ => empty, fun _ => rfl⟩
  · rename_i nonempty
    exact ⟨fun same => (Option.some_ne_none _ same).elim, fun none => (nonempty none).elim⟩

theorem isClosure_iff : scene.isClosure method receiver = true ↔
    ∃ block context, receiver = .block block ∧ (scene.blocks.get block).method = method ∧
      (scene.blocks.get block).context = some context := by
  cases receiver with
  | block block => simp [Scene.isClosure, Option.isSome_iff_exists]
  | _ => simp [Scene.isClosure]

/-- The parent made the block. -/
theorem parentOf_eq_some {parent : Nat}
    (found : chronicle.parentOf scene method receiver = some parent) :
    ∃ block context, receiver = .block block ∧ (scene.blocks.get block).method = method ∧
      (scene.blocks.get block).context = some context ∧ chronicle.maker block = some parent := by
  cases receiver with
  | block block =>
    rw [parentOf] at found
    split at found
    · rename_i closure
      obtain ⟨_, context, same, belongs, captured⟩ := isClosure_iff.mp closure
      cases same
      exact ⟨block, context, rfl, belongs, captured, found⟩
    · cases found
  | _ => cases found

/-- What evaluates a block that holds a context has a parent. -/
theorem Follows.parentOf_isSome (follows : chronicle.Follows family scene homes)
    (member : family method) (closure : scene.isClosure method receiver = true) :
    (chronicle.parentOf scene method receiver).isSome := by
  obtain ⟨block, context, rfl, rfl, captured⟩ := isClosure_iff.mp closure
  obtain ⟨-, maker, known, -⟩ := follows.made member captured
  rw [parentOf, if_pos closure, known]
  rfl

end

/-- An activation starts with its arguments in place. -/
theorem Follows.begin (follows : chronicle.Follows family scene homes) {method : MethodId}
    {receiver : Value} {values : List Value} {home : Home} {catches : Bool}
    (addressable : family method → (scene.methods.get method).scope.own.Addressable)
    (same : home = ⟨scene.startContext (scene.methods.get method), catches, method,
      scene.startFrame (scene.methods.get method) receiver
        ((scene.methods.get method).scope.own.arguments.zip values)⟩) :
    (chronicle.begin scene method receiver values).Follows family
      (scene.started (scene.methods.get method) receiver
        ((scene.methods.get method).scope.own.arguments.zip values)) (home :: homes) := by
  subst same
  have before : chronicle.Follows family
      (scene.started (scene.methods.get method) receiver
        ((scene.methods.get method).scope.own.arguments.zip values)) homes := follows.started
  have older {serial : Nat} (recent : serial < chronicle.started) :
      (chronicle.begin scene method receiver values).chapter serial = chronicle.chapter serial :=
    chapter_begin_of_ne (Nat.ne_of_lt recent)
  have anchor {serial : Nat} {context : ContextId}
      (anchored : (chronicle.chapter serial).context = some context) :
      (chronicle.begin scene method receiver values).chapter serial = chronicle.chapter serial :=
    older (follows.owned anchored).1
  -- The new context is one that no earlier activation has.
  have apart {serial : Nat} {context : ContextId}
      (opened : scene.startContext (scene.methods.get method) = some context)
      (anchored : (chronicle.chapter serial).context = some context) : False :=
    Scene.Links.startContext_new opened (follows.owned anchored).2.1
  constructor
  case accounts =>
    refine .cons ?_ (before.accounts.imp fun serial member home lives => ?_)
    · rw [chapter_begin_self]
      refine ⟨rfl, rfl, rfl, by rw [Live.methods_started], fun member => ?_⟩
      have settled := (addressable member).settled
      exact settled.holds_fresh VariablePlace.slotted_frame settled.frameSlot values
    · rw [older (follows.recent serial member)]
      exact lives
  case recent =>
    intro serial member
    rcases List.mem_cons.mp member with rfl | member
    · exact Nat.lt_succ_self _
    · exact Nat.lt_succ_of_lt (follows.recent serial member)
  case distinct =>
    exact List.nodup_cons.mpr ⟨fun member => Nat.lt_irrefl _ (follows.recent _ member),
      follows.distinct⟩
  case owned =>
    intro serial context anchored
    by_cases new : serial = chronicle.started
    · subst new
      rw [chapter_begin_self] at anchored ⊢
      refine ⟨Nat.lt_succ_self _, ?_, fun member => ?_⟩
      · exact (Scene.Links.startContext_started anchored).1
      · exact holds_started (addressable member).settled anchored
    · rw [chapter_begin_of_ne new] at anchored ⊢
      obtain ⟨recent, has, holds⟩ := before.owned anchored
      exact ⟨Nat.lt_succ_of_lt recent, has, holds⟩
  case apart =>
    intro first second context left right
    by_cases newFirst : first = chronicle.started
    · by_cases newSecond : second = chronicle.started
      · exact newFirst.trans newSecond.symm
      · subst newFirst
        rw [chapter_begin_self] at left
        rw [chapter_begin_of_ne newSecond] at right
        exact (apart left right).elim
    · rw [chapter_begin_of_ne newFirst] at left
      by_cases newSecond : second = chronicle.started
      · subst newSecond
        rw [chapter_begin_self] at right
        exact (apart right left).elim
      · rw [chapter_begin_of_ne newSecond] at right
        exact follows.apart left right
  case sound =>
    intro serial recent member
    by_cases new : serial = chronicle.started
    · subst new
      rw [chapter_begin_self] at member ⊢
      exact ⟨addressable member, startContext_eq_none, follows.parentOf_isSome member⟩
    · rw [chapter_begin_of_ne new] at member ⊢
      exact follows.sound (Nat.lt_of_le_of_ne (Nat.le_of_lt_succ recent) new) member
  case made =>
    intro block context member captured
    obtain ⟨has, maker, found, kin, anchored, scope⟩ := before.made member captured
    refine ⟨has, maker, found, ?_⟩
    rw [anchor anchored]
    exact ⟨kin, anchored, scope⟩
  case parents =>
    intro serial parent recent member found
    by_cases new : serial = chronicle.started
    · subst new
      rw [chapter_begin_self] at member found ⊢
      obtain ⟨block, context, receives, same, captured, made⟩ := parentOf_eq_some found
      obtain ⟨-, maker, known, kin, anchored, scope⟩ :=
        follows.made (same.symm ▸ member) captured
      obtain rfl : maker = parent := Option.some.inj (known.symm.trans made)
      rw [anchor anchored]
      refine ⟨⟨block, context, receives, ?_, anchored⟩, kin, same ▸ scope⟩
      rw [Scene.Links.blocks_started]
      exact captured
    · rw [chapter_begin_of_ne new] at member found ⊢
      have nested := before.parents (Nat.lt_of_le_of_ne (Nat.le_of_lt_succ recent) new) member
        found
      obtain ⟨_, _, _, _, anchored⟩ := nested.captured
      rw [anchor anchored]
      exact nested

theorem slots_finish (ended : Option ContextId) (context : ContextId) :
    ((scene.finish ended).contexts.get context).slots = (scene.contexts.get context).slots := by
  cases ended with
  | none => rfl
  | some ended =>
    show ((scene.contexts.modify ended _).get context).slots = _
    rcases Table.get_modify_cases scene.contexts ended context (fun row =>
      { row with onStack := false }) with same | ⟨-, same⟩
    · rw [same]
    · rw [same]

theorem Accounts.tail {chapter : Nat → Chapter} {live : List Nat} {home : Home}
    (accounts : Accounts family scene chapter live (home :: homes)) :
    Accounts family scene chapter live.tail homes := by
  cases accounts with
  | cons _ rest => exact rest

/-- The innermost activation ends; its context holds what it held. -/
theorem Follows.close {home : Home} (follows : chronicle.Follows family scene (home :: homes))
    (ended : Option ContextId) :
    chronicle.close.Follows family (scene.finish ended) homes where
  accounts := follows.accounts.tail.imp fun serial _ home lives =>
    ⟨lives.method, lives.context, lives.framed, (scene.methods_finish ended).symm ▸ lives.scope,
      lives.slots⟩
  recent serial member := follows.recent serial (List.mem_of_mem_tail member)
  distinct := follows.distinct.tail
  owned {serial context} anchored := by
    obtain ⟨recent, has, holds⟩ := follows.owned anchored
    rw [Scene.has_context_finish, slots_finish]
    exact ⟨recent, has, holds⟩
  apart := follows.apart
  sound := follows.sound
  made {block context} member captured := by
    rw [Scene.blocks_finish] at member captured ⊢
    rw [Scene.methods_finish]
    exact follows.made member captured
  parents {serial parent} recent member found := by
    refine (follows.parents recent member found).of_memory fun block context _ => ?_
    rw [Scene.blocks_finish]

end

/-! ### Steps and runs -/

section

variable {family : MethodId → Prop} {chronicle : Chronicle} {before after : State}

/-- What the rules say about the next deed. -/
theorem Follows.obeys (follows : chronicle.Follows family before.scene before.homes)
    (obeys : chronicle.Obeys family before) :
    (chronicle.perform before.scene before.deed).Follows family
      (before.deed.scene before.scene) (before.deed.homes before.homes) := by
  refine follows.performed before.deed (fun block context made captured => ?_) obeys.frames
    obeys.contexts
  obtain ⟨home, innermost, framed⟩ := State.innermost_of_makeBlock made captured
  obtain ⟨serial, -, lives⟩ := follows.accounts.head innermost
  exact ⟨⟨home, innermost, lives.framed.symm.trans framed⟩, fun member =>
    obeys.blocks block context made member captured⟩

/-- What a step does to the chronicle, with what it does to the scene and the homes. -/
inductive Advances (chronicle : Chronicle) (before after : State) : Prop
  | perform (scene : after.scene = before.deed.scene before.scene)
    (homes : after.homes = before.deed.homes before.homes)
    (next : chronicle.next before after = chronicle.perform before.scene before.deed)
  | begin {method : MethodId} {receiver : Value} {values : List Value} {home : Home}
    {catches : Bool}
    (same : home = ⟨before.scene.startContext (before.scene.methods.get method), catches, method,
      before.scene.startFrame (before.scene.methods.get method) receiver
        ((before.scene.methods.get method).scope.own.arguments.zip values)⟩)
    (scene : after.scene = before.scene.started (before.scene.methods.get method) receiver
      ((before.scene.methods.get method).scope.own.arguments.zip values))
    (homes : after.homes = home :: before.homes)
    (next : chronicle.next before after = chronicle.begin before.scene method receiver values)
  | reject {code : Method} {receiver : Value} {puts : List (VariablePlace × Value)}
    (scene : after.scene = before.scene.started code receiver puts)
    (homes : after.homes = before.homes) (next : chronicle.next before after = chronicle)
  | close {home : Home} {ended : Option ContextId} (homes : before.homes = home :: after.homes)
    (scene : after.scene = (before.deed.scene before.scene).finish ended)
    (next : chronicle.next before after = (chronicle.perform before.scene before.deed).close)

theorem advances (chronicle : Chronicle) (goes : before.Goes after) :
    chronicle.Advances before after := by
  cases goes with
  | on scene homes fails =>
    have length : after.homes.length = before.homes.length := by
      rw [homes]
      cases before.homes <;> rfl
    refine .perform scene homes ?_
    rw [next, length, if_neg (Nat.lt_irrefl _), if_neg (Nat.lt_irrefl _)]
  | @start made method tier live calls target started entered waiting =>
    obtain ⟨home, scene⟩ := Live.home_of_start started
    have homes : after.homes = live.home :: before.homes :=
      State.homes_of_start calls entered waiting
    refine .begin home scene homes ?_
    obtain ⟨_, receiver, arguments⟩ := made
    cases target
    have more : before.homes.length < (live.home :: before.homes).length := Nat.lt_succ_self _
    rw [next, homes, if_pos more, calls]
  | reject calls target refused failed waiting =>
    obtain ⟨⟨_, scene⟩, -⟩ := Live.scene_of_refused refused
    have homes : after.homes = before.homes := State.homes_of_reject calls failed waiting
    have nothing : before.deed = .nothing := by
      rw [State.deed, calls]
    refine .reject scene homes ?_
    rw [next, homes, if_neg (Nat.lt_irrefl _), if_neg (Nat.lt_irrefl _), nothing]
    rfl
  | @finish home outer ending homes left scene focus breaks =>
    have fewer : after.homes.length < before.homes.length := by
      rw [homes, left]
      exact Nat.lt_succ_self _
    refine .close (left ▸ homes) scene ?_
    rw [next, if_neg (Nat.not_lt_of_gt fewer), if_pos fewer]

/-- Slots follow the chronicle from one state to the next. -/
theorem Follows.step (follows : chronicle.Follows family before.scene before.homes)
    (obeys : chronicle.Obeys family before) (goes : before.Goes after) :
    (chronicle.next before after).Follows family after.scene after.homes := by
  cases chronicle.advances goes with
  | perform scene homes next =>
    rw [next, scene, homes]
    exact follows.obeys obeys
  | begin home scene homes next =>
    rw [next, scene, homes]
    exact follows.begin (obeys.levels _) home
  | reject scene homes next =>
    rw [next, scene, homes]
    exact follows.started
  | @close home ended homes scene next =>
    have obeyed := follows.obeys obeys
    rw [homes] at obeyed
    rw [next, scene]
    exact obeyed.close ended

end

/-! ### Hosts -/

section

variable {family : MethodId → Prop} {scene after : Scene}

theorem Follows.blank (none : ∀ block, ¬ scene.blocks.Has block) :
    Chronicle.blank.Follows family scene [] where
  accounts := .nil
  recent serial member := by cases member
  distinct := List.nodup_nil
  owned anchored := by cases anchored
  apart anchored := by cases anchored
  sound recent := (Nat.not_lt_zero _ recent).elim
  made _ captured := (none _ (has_block captured)).elim
  parents recent := (Nat.not_lt_zero _ recent).elim

/-- Between two runs only blocks and contexts have to stay, and the methods that there are. -/
theorem Follows.hosted {chronicle : Chronicle} (follows : chronicle.Follows family scene [])
    (contexts : after.contexts = scene.contexts) (blocks : after.blocks = scene.blocks)
    (methods : ∀ method, scene.methods.Has method →
      after.methods.Has method ∧ after.methods.get method = scene.methods.get method) :
    chronicle.Follows family after [] where
  accounts := by
    have accounts := follows.accounts
    generalize chronicle.live = live at accounts ⊢
    cases accounts
    exact .nil
  recent := follows.recent
  distinct := follows.distinct
  owned := by
    rw [contexts]
    exact follows.owned
  apart := follows.apart
  sound := follows.sound
  made {block context} member captured := by
    rw [blocks] at member captured ⊢
    obtain ⟨has, known⟩ := follows.made member captured
    obtain ⟨stays, same⟩ := methods _ has
    rw [same]
    exact ⟨stays, known⟩
  parents recent member found := by
    refine (follows.parents recent member found).of_memory fun block context _ => ?_
    rw [blocks]

end

end Chronicle

end ObjectMachine
