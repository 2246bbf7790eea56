/-
This file says what lasts of an activation while it is live. Others may start above it and end
again, and its own code may store into its frame; but it keeps its method, its context and the
number of its slots, contexts keep the number of theirs, and blocks are as they were made. So a
variable that an activation has found once is found again later in the same activation,
whatever has run in between.
-/

import ObjectMachine.Proofs.Adequacy
import ObjectMachine.Proofs.Homes
import ObjectMachine.Proofs.Readiness
import ObjectMachine.Proofs.VariableAccess

namespace ObjectMachine

/-! ### Scenes -/

/-- Contexts stay as long as they are, and blocks are as they were made. -/
structure Scene.Lasts (before after : Scene) : Prop where
  contexts : ∀ context, before.contexts.Has context → after.contexts.Has context ∧
    (after.contexts.get context).slots.size = (before.contexts.get context).slots.size
  blocks : ∀ block, before.blocks.Has block → after.blocks.Has block ∧
    after.blocks.get block = before.blocks.get block

namespace Scene

variable {first second third : Scene}

theorem Lasts.refl (scene : Scene) : scene.Lasts scene where
  contexts _ has := ⟨has, rfl⟩
  blocks _ has := ⟨has, rfl⟩

theorem Lasts.trans (left : first.Lasts second) (right : second.Lasts third) :
    first.Lasts third where
  contexts context has :=
    have ⟨between, size⟩ := left.contexts context has
    ⟨(right.contexts context between).1, (right.contexts context between).2.trans size⟩
  blocks block has :=
    have ⟨between, same⟩ := left.blocks block has
    ⟨(right.blocks block between).1, (right.blocks block between).2.trans same⟩

/-- Rows of contexts may change in any way that leaves their slots as many. -/
theorem lasts_modify (scene : Scene) (context : ContextId) {change : Context → Context}
    (size : ∀ row, (change row).slots.size = row.slots.size) :
    scene.Lasts { scene with contexts := scene.contexts.modify context change } where
  contexts other has := by
    refine ⟨(Table.has_modify _ _ _ _).mpr has, ?_⟩
    show ((scene.contexts.modify context change).get other).slots.size = _
    rcases Table.get_modify_cases scene.contexts context other change with same | ⟨-, same⟩
    · rw [same]
    · rw [same, size]
  blocks _ has := ⟨has, rfl⟩

theorem lasts_deed (scene : Scene) (deed : Deed) : scene.Lasts (deed.scene scene) := by
  cases deed with
  | nothing | storeFrame => exact .refl scene
  | storeContext context slot value =>
    exact scene.lasts_modify context fun row => Array.size_setIfInBounds
  | makeBlock block =>
    exact ⟨fun _ has => ⟨has, rfl⟩, fun other has =>
      ⟨Table.has_add_of_has _ _ _ has, Table.get_add_of_has _ _ _ has⟩⟩

theorem lasts_started (scene : Scene) (code : Method) (receiver : Value)
    (puts : List (VariablePlace × Value)) : scene.Lasts (scene.started code receiver puts) where
  contexts context has :=
    have ⟨there, same⟩ := Links.has_started has
    ⟨there, congrArg (·.slots.size) same⟩
  blocks block has := by
    rw [Links.blocks_started]
    exact ⟨has, rfl⟩

theorem lasts_finish (scene : Scene) (context : Option ContextId) :
    scene.Lasts (scene.finish context) := by
  cases context with
  | none => exact .refl scene
  | some context => exact scene.lasts_modify context fun _ => rfl

end Scene

/-! ### Homes -/

/-- A home later on: only what is in its slots may be something else. -/
structure Home.Alike (before after : Home) : Prop where
  context : after.context = before.context
  catches : after.catches = before.catches
  method : after.method = before.method
  inner : after.frame.context = before.frame.context
  slots : after.frame.slots.size = before.frame.slots.size

namespace Home.Alike

variable {first second third : Home}

theorem refl (home : Home) : home.Alike home := ⟨rfl, rfl, rfl, rfl, rfl⟩

theorem trans (left : first.Alike second) (right : second.Alike third) : first.Alike third where
  context := right.context.trans left.context
  catches := right.catches.trans left.catches
  method := right.method.trans left.method
  inner := right.inner.trans left.inner
  slots := right.slots.trans left.slots

theorem deed (home : Home) (deed : Deed) :
    home.Alike { home with frame := deed.frame home.frame } where
  context := rfl
  catches := rfl
  method := rfl
  inner := deed.context_frame home.frame
  slots := by
    cases deed with
    | storeFrame => exact Array.size_setIfInBounds
    | _ => rfl

end Home.Alike

namespace State

/-- An activation is live above others. -/
def Carries (home : Home) (outer : List Home) (state : State) : Prop :=
  ∃ above kept, state.homes = above ++ kept :: outer ∧ home.Alike kept

section

variable {before after : State} {home : Home} {outer : List Home}

theorem Goes.lasts (goes : before.Goes after) : before.scene.Lasts after.scene := by
  cases goes with
  | on scene =>
    rw [scene]
    exact before.scene.lasts_deed before.deed
  | start _ _ started =>
    obtain ⟨-, scene⟩ := Live.home_of_start started
    rw [show after.scene = _ from scene]
    exact before.scene.lasts_started _ _ _
  | reject _ _ refused =>
    obtain ⟨⟨_, scene⟩, -⟩ := Live.scene_of_refused refused
    rw [show after.scene = _ from scene]
    exact before.scene.lasts_started _ _ _
  | finish _ _ _ scene =>
    rw [scene]
    exact (before.scene.lasts_deed before.deed).trans (Scene.lasts_finish _ _)

/-- A step keeps an activation live unless it ends this one. -/
theorem Goes.carries (goes : before.Goes after) (carries : before.Carries home outer)
    (lives : outer.length < after.homes.length) : after.Carries home outer := by
  obtain ⟨above, kept, homes, alike⟩ := carries
  cases goes with
  | on _ same =>
    rw [homes] at same
    cases above with
    | nil => exact ⟨[], _, same, alike.trans (.deed kept before.deed)⟩
    | cons inner above => exact ⟨_ :: above, kept, same, alike⟩
  | @start made method tier live calls _ _ entered waiting =>
    refine ⟨live.home :: above, kept, ?_, alike⟩
    rw [homes_of_start calls entered waiting, homes]
    rfl
  | reject calls _ _ failed waiting =>
    refine ⟨above, kept, ?_, alike⟩
    rw [homes_of_reject calls failed waiting, homes]
  | finish _ found left =>
    rw [homes] at found
    cases above with
    | nil =>
      obtain ⟨-, rfl⟩ := List.cons.inj found
      rw [left] at lives
      exact absurd lives (Nat.lt_irrefl _)
    | cons inner above =>
      obtain ⟨-, rfl⟩ := List.cons.inj found
      exact ⟨above, kept, left, alike⟩

end

/-! ### Runs -/

/-- Steps lead from a state to another one, and all before the other one are of a kind. -/
inductive Leads (through : State → Prop) : State → State → Prop
  | here {state : State} : Leads through state state
  | step {first second third : State} (within : through first)
    (stepped : first.step = some second) (rest : Leads through second third) :
    Leads through first third

namespace Leads

variable {through others : State → Prop} {first second third : State}

theorem trans (left : Leads through first second) (right : Leads through second third) :
    Leads through first third := by
  induction left with
  | here => exact right
  | step within stepped _ inductionHypothesis =>
    exact .step within stepped (inductionHypothesis right)

/-- Of two runs from one state one goes on where the other has come to. -/
theorem total (left : Leads through first second) (right : Leads others first third) :
    Leads others second third ∨ Leads through third second := by
  induction left with
  | here => exact .inl right
  | step within stepped rest inductionHypothesis =>
    cases right with
    | here => exact .inr (.step within stepped rest)
    | step _ same right =>
      cases stepped.symm.trans same
      exact inductionHypothesis right

/-- Runs that end where they first may end end in the same state. -/
theorem first_of_two (left : Leads through first second) (right : Leads through first third)
    (ends : ¬ through second) (others : ¬ through third) : second = third := by
  rcases left.total right with rest | rest
  · cases rest with
    | here => rfl
    | step within => exact absurd within ends
  · cases rest with
    | here => rfl
    | step within => exact absurd within others

theorem stable {code : Code} {sites : MethodId → Nat} (leads : Leads through first second)
    (stable : first.machine.Stable code sites) : second.machine.Stable code sites := by
  induction leads with
  | here => exact stable
  | step _ stepped _ inductionHypothesis => exact inductionHypothesis (stable_step stable stepped)

theorem lasts (leads : Leads through first second) : first.scene.Lasts second.scene := by
  induction leads with
  | here => exact .refl _
  | step _ stepped _ inductionHypothesis =>
    exact (goes_step stepped).lasts.trans inductionHypothesis

theorem carries {home : Home} {outer : List Home} (leads : Leads through first second)
    (live : ∀ state, through state → outer.length < state.homes.length)
    (ends : outer.length < second.homes.length) (carries : first.Carries home outer) :
    second.Carries home outer := by
  induction leads with
  | here => exact carries
  | @step first second third within stepped rest inductionHypothesis =>
    refine inductionHypothesis ends ((goes_step stepped).carries carries ?_)
    cases rest with
    | here => exact ends
    | step within => exact live _ within

end Leads

end State

/-! ### Variables -/

/-- A store into a variable of the own activation is the same on any machine. -/
theorem Frame.storing_of_near (frame : Frame) (first second : Machine) (value : Value)
    {reached : VariableAccess} (near : ∀ slot level, reached ≠ .outerInner slot level) :
    frame.storing first value reached = frame.storing second value reached := by
  cases reached with
  | ownFrame slot => rfl
  | ownInner slot =>
    rw [storing, storing, contextAt, if_pos rfl]
    cases frame.context <;> rfl
  | outerInner slot level => exact absurd rfl (near slot level)

/-- A variable that is declared here is in the own frame or in the own context. -/
theorem Scope.near_of_resolve? {scope : Scope} {kind : VariableKind} {index : UInt8}
    {reached : VariableAccess} (resolved : scope.resolve? kind index 0 = some reached) :
    ∀ slot level, reached ≠ .outerInner slot level := by
  rw [resolve?_eq] at resolved
  obtain ⟨place, -, found⟩ := Option.bind_eq_some_iff.mp resolved
  cases place <;> cases found <;> exact fun _ _ same => by cases same

/-- A slot that holds something is that of a context. -/
theorem Heap.has_of_held {heap : Heap} {context : ContextId} {slot : Nat} {value : Value}
    (held : (heap.contexts.get context).slots[slot]? = some value) : heap.contexts.Has context := by
  refine Classical.byContradiction fun absent => ?_
  rw [Table.get_of_not_has _ _ absent] at held
  cases held

namespace Frame.Finds

variable {before after : Frame} {first last : Machine} {reached : VariableAccess} {old : Value}
  (finds : before.Finds first reached old)
  (near : ∀ slot level, reached ≠ .outerInner slot level)

include finds near

/-- A variable of an activation stays where it has been found. -/
theorem lasts (context : after.context = before.context)
    (slots : after.slots.size = before.slots.size)
    (lasts : first.heap.scene.Lasts last.heap.scene) : ∃ value, after.Finds last reached value := by
  cases finds with
  | @frame slot _ held =>
    obtain ⟨within, -⟩ := Array.getElem?_eq_some_iff.mp held
    exact ⟨_, .frame (Array.getElem?_eq_getElem (slots ▸ within))⟩
  | @own slot own _ found held =>
    obtain ⟨within, -⟩ := Array.getElem?_eq_some_iff.mp held
    have has := Heap.has_of_held held
    have size : (last.heap.contexts.get own).slots.size =
        (first.heap.contexts.get own).slots.size := (lasts.contexts own has).2
    have again : after.contextAt 0 last = .ok own last :=
      contextAt_zero_iff.mpr ⟨context.trans (contextAt_zero_iff.mp found).1, rfl⟩
    exact ⟨_, .own again (Array.getElem?_eq_getElem (size ▸ within))⟩
  | @outer slot level => exact absurd rfl (near slot level)

/-- It does not matter what else there is on the machine. -/
theorem of_contexts (same : last.heap.contexts = first.heap.contexts) :
    before.Finds last reached old := by
  cases finds with
  | frame held => exact .frame held
  | own found held =>
    exact .own (contextAt_zero_iff.mpr ⟨(contextAt_zero_iff.mp found).1, rfl⟩) (same ▸ held)
  | @outer slot level => exact absurd rfl (near slot level)

/-- A variable of an activation holds what has been stored into it. -/
theorem stored (value : Value) : ((before.storing first value reached).frame before).Finds
    ((before.storing first value reached).machine first) reached value := by
  cases finds with
  | @frame slot _ held =>
    obtain ⟨within, -⟩ := Array.getElem?_eq_some_iff.mp held
    exact .frame (Array.getElem?_setIfInBounds_self_of_lt within)
  | @own slot own _ found held =>
    obtain ⟨within, -⟩ := Array.getElem?_eq_some_iff.mp held
    have has := Heap.has_of_held held
    have stores : before.storing first value (.ownInner slot) =
        .storeContext own slot.toNat value := by
      rw [storing, found]
      rfl
    rw [stores]
    refine .own (contextAt_zero_iff.mpr ⟨(contextAt_zero_iff.mp found).1, rfl⟩) ?_
    show ((first.heap.contexts.modify own fun row =>
      { row with slots := row.slots.setIfInBounds slot.toNat value }).get
        own).slots[slot.toNat]? = _
    rw [Table.get_modify_self _ _ _ has]
    exact Array.getElem?_setIfInBounds_self_of_lt within
  | @outer slot level => exact absurd rfl (near slot level)

end Frame.Finds

end ObjectMachine
