/-
This file proves that a walk from a block to the receiver that its context keeps, and from there
to the next block, ends. A context is younger than all that the receiver in its slot zero leads
to, and a block is younger than its context; only a store into slot zero can turn this round. It
does not matter for this whether activations still run, nor how blocks have got to where they
are.
-/

import ObjectMachine.Proofs.EnsuingStates
import ObjectMachine.Proofs.HomeReceivers

namespace ObjectMachine

/-! ### Older contexts -/

namespace Scene

/-- What a context keeps in slot zero leads to older contexts only. -/
def Inward (scene : Scene) : Prop :=
  ∀ ⦃context outer : ContextId⦄ ⦃block : BlockId⦄,
    (scene.contexts.get context).slots[0]? = some (.block block) →
    (scene.blocks.get block).context = some outer → outer.index < context.index

namespace Inward

variable {scene : Scene} {homes : List Home}

theorem of_contexts (none : scene.contexts.size = 0) : scene.Inward := by
  intro context outer block kept
  rw [Table.get_of_not_has _ _ (by simp [Table.Has, none])] at kept
  cases kept

/-- The blocks in slots zero are there before a deed, so that a new block is in none of them. -/
theorem deed (inward : scene.Inward) {deed : Deed}
    (present : ∀ context block, (scene.contexts.get context).slots[0]? = some (.block block) →
      scene.blocks.Has block)
    (spares : ∀ context slot value, deed = .storeContext context slot value → slot ≠ 0) :
    (deed.scene scene).Inward := by
  intro context outer block kept captured
  rw [deed.receiver_scene scene spares] at kept
  rw [deed.block_scene_of_has scene (present context block kept)] at captured
  exact inward kept captured

/-- Whatever is put into slot zero of a new context, all blocks hold older ones. -/
theorem started (inward : scene.Inward) (links : scene.Links homes) {code : Method}
    {receiver : Value} {puts : List (VariablePlace × Value)} :
    (scene.started code receiver puts).Inward := by
  intro context outer block kept captured
  rw [Links.blocks_started] at captured
  unfold Scene.started at kept
  split at kept
  · exact inward kept captured
  · by_cases new : context = scene.contexts.next
    · rw [new]
      exact links.captured block outer captured
    · rw [Table.get_add_of_ne _ _ _ new] at kept
      exact inward kept captured

theorem finish (inward : scene.Inward) (ended : Option ContextId) :
    (scene.finish ended).Inward := by
  intro context outer block kept captured
  rw [blocks_finish] at captured
  rw [Chronicle.slots_finish] at kept
  exact inward kept captured

end Inward

end Scene

namespace State

/-- What is done next stores into no slot zero of a context. -/
def SparesContexts (state : State) : Prop :=
  ∀ context slot value, state.deed = .storeContext context slot value → slot ≠ 0

instance : DecidablePred SparesContexts := fun state =>
  match does : state.deed with
  | .storeContext context slot value =>
    decidable_of_iff (slot ≠ 0)
      ⟨fun other _ _ _ same => by cases does.symm.trans same; exact other,
        fun spares => spares context slot value does⟩
  | .nothing => .isTrue fun _ _ _ same => by cases does.symm.trans same
  | .makeBlock _ => .isTrue fun _ _ _ same => by cases does.symm.trans same
  | .storeFrame _ _ => .isTrue fun _ _ _ same => by cases does.symm.trans same

variable {before after : State}

theorem inward_step (inward : before.scene.Inward) (links : before.scene.Links before.homes)
    (present : ∀ context block,
      (before.scene.contexts.get context).slots[0]? = some (.block block) →
        before.scene.blocks.Has block)
    (spares : before.SparesContexts) (stepped : before.step = some after) :
    after.scene.Inward := by
  cases Chronicle.blank.advances (goes_step stepped) with
  | perform scene _ _ =>
    rw [scene]
    exact inward.deed present spares
  | begin _ scene _ _ =>
    rw [scene]
    exact inward.started links
  | reject scene _ _ =>
    rw [scene]
    exact inward.started links
  | @close _ ended _ scene _ =>
    rw [scene]
    exact (inward.deed present spares).finish ended

end State

/-- A host touches neither blocks nor contexts. -/
theorem Machine.Tended.closures {before after : Machine} (tended : before.Tended after) :
    after.heap.blocks = before.heap.blocks ∧ after.heap.contexts = before.heap.contexts := by
  have framed {heap : Heap} (framed : heap = heap.framed before.heap) :
      heap.blocks = before.heap.blocks ∧ heap.contexts = before.heap.contexts :=
    ⟨(congrArg Heap.blocks framed :), (congrArg Heap.contexts framed :)⟩
  cases tended with
  | setField _ _ set => exact framed (Heap.framed_of_setField? set)
  | migrate _ migrated => exact framed (Heap.framed_of_migrate? migrated)
  | widen _ _ widening => exact framed (Heap.framed_of_widenLayout? widening)
  | aside aside => exact ⟨aside.blocks, aside.contexts⟩
  | _ => exact ⟨rfl, rfl⟩

namespace State.Ensues

variable {rule : State → Prop} {state : State}

/-- The links hold whatever has happened, also to a machine that has broken off. -/
theorem links (ensues : Ensues rule state) : state.scene.Links state.homes := by
  induction ensues with
  | start bare => exact links_idle_of_no_blocks bare.heap.blocks
  | hosted _ _ tended links => exact links_idle links tended.closures.2 tended.closures.1
  | called _ rests _ _ links =>
    rw [homes_of_over rests] at links
    exact links
  | stepped _ _ stepped links => exact links_step links (goes_step stepped)

/-- Whatever block a context keeps has been made. -/
theorem present (ensues : Ensues rule state) (context : ContextId) (block : BlockId)
    (kept : (state.scene.contexts.get context).slots[0]? = some (.block block)) :
    state.scene.blocks.Has block :=
  ensues.wellformed.machine.heap.stores.slots context (.block block) (Array.mem_of_getElem? kept)

theorem inward (ensues : Ensues SparesContexts state) : state.scene.Inward := by
  induction ensues with
  | start bare => exact Scene.Inward.of_contexts bare.heap.contexts
  | @hosted state machine _ _ tended inward =>
    have blocks : (idle machine).scene.blocks = state.scene.blocks := tended.closures.1
    have contexts : (idle machine).scene.contexts = state.scene.contexts := tended.closures.2
    unfold Scene.Inward at inward ⊢
    rw [blocks, contexts]
    exact inward
  | called _ _ _ _ inward => exact inward
  | stepped ensues spares stepped inward =>
    exact inward_step inward ensues.links ensues.present spares stepped

end State.Ensues

/-! ### Chains of receivers -/

namespace Heap

/-- One step out: the inner value is a block whose context keeps the outer value. -/
def LeadsOut (heap : Heap) (outer inner : Value) : Prop :=
  ∃ block, inner = .block block ∧ Frame.outerReceiver? heap block = some outer

/-- That many steps out from a value there is one where they end. -/
inductive EndsIn (heap : Heap) : Nat → Value → Value → Prop
  | here {value : Value} (plain : ¬heap.scene.HoldsContext value) : EndsIn heap 0 value value
  | out {steps : Nat} {inner outer last : Value} (leads : heap.LeadsOut outer inner)
    (ends : EndsIn heap steps outer last) : EndsIn heap (steps + 1) inner last

/-- The age of the context that a value leads to, zero if there is none. -/
def rank (heap : Heap) : Value → Nat
  | .block block => ((heap.blocks.get block).context.map fun context => context.index + 1).getD 0
  | _ => 0

variable {heap : Heap} {homes : List Home}

theorem rank_le (links : heap.scene.Links homes) (value : Value) :
    heap.rank value ≤ heap.contexts.size := by
  cases value with
  | block block =>
    rw [rank]
    cases captured : (heap.blocks.get block).context with
    | none => exact Nat.zero_le _
    | some context => exact links.captured block context captured
  | _ => exact Nat.zero_le _

theorem rank_lt (inward : heap.scene.Inward) {outer inner : Value}
    (leads : heap.LeadsOut outer inner) : heap.rank outer < heap.rank inner := by
  obtain ⟨block, rfl, kept⟩ := leads
  rw [Frame.outerReceiver?, blockContext?, Option.map_map, Option.map_eq_some_iff] at kept
  obtain ⟨context, captured, rfl⟩ := kept
  have inner : heap.rank (.block block) = context.index + 1 := by
    rw [rank, captured]
    rfl
  rw [inner, Function.comp_apply]
  cases slot : (heap.contexts.get context).slots.getD 0 .nil with
  | block other =>
    rw [rank]
    cases above : (heap.blocks.get other).context with
    | none => exact Nat.succ_pos _
    | some outer =>
      have first : (heap.contexts.get context).slots[0]? = some (.block other) := by
        rw [Array.getD_eq_getD_getElem?] at slot
        cases found : (heap.contexts.get context).slots[0]? with
        | none =>
          rw [found] at slot
          cases slot
        | some value =>
          rw [found] at slot
          exact congrArg some slot
      exact Nat.succ_lt_succ (inward first above)
  | _ => exact Nat.succ_pos _

theorem leadsOut_wellFounded (inward : heap.scene.Inward) : WellFounded heap.LeadsOut :=
  Subrelation.wf (rank_lt inward) (measure heap.rank).wf

/-- Every value has an end, no more steps out than there are contexts it can lead to. -/
theorem exists_endsIn (inward : heap.scene.Inward) (value : Value) :
    ∃ steps last, steps ≤ heap.rank value ∧ heap.EndsIn steps value last := by
  induction value using (leadsOut_wellFounded inward).induction with
  | _ value inductionHypothesis =>
    by_cases holds : heap.scene.HoldsContext value
    · obtain ⟨block, context, rfl, captured⟩ := holds
      have leads : heap.LeadsOut ((heap.contexts.get context).slots.getD 0 .nil)
          (.block block) := by
        refine ⟨block, rfl, ?_⟩
        rw [Frame.outerReceiver?, blockContext?, show (heap.blocks.get block).context = _ from
          captured]
        rfl
      obtain ⟨steps, last, few, ends⟩ := inductionHypothesis _ leads
      exact ⟨steps + 1, last, Nat.lt_of_le_of_lt few (rank_lt inward leads), .out leads ends⟩
    · exact ⟨0, value, Nat.zero_le _, .here holds⟩

theorem EndsIn.plain {steps : Nat} {value last : Value} (ends : heap.EndsIn steps value last) :
    ¬heap.scene.HoldsContext last := by
  induction ends with
  | here plain => exact plain
  | out _ _ plain => exact plain

/-- The end of a value is that of the value one step out. -/
theorem EndsIn.of_leadsOut {steps : Nat} {outer inner last : Value}
    (ends : heap.EndsIn steps inner last) (leads : heap.LeadsOut outer inner) :
    ∃ fewer, steps = fewer + 1 ∧ heap.EndsIn fewer outer last := by
  obtain ⟨block, rfl, next⟩ := leads
  cases ends with
  | here plain =>
    have none : Frame.outerReceiver? heap block = none := by
      rw [Frame.outerReceiver?_eq_none]
      exact Option.eq_none_iff_forall_ne_some.mpr fun context captured =>
        plain ⟨block, context, rfl, captured⟩
    rw [none] at next
    cases next
  | @out fewer _ other _ leads ends =>
    obtain ⟨_, same, found⟩ := leads
    cases same
    cases next.symm.trans found
    exact ⟨fewer, rfl, ends⟩

/-- The walk finds the end when there is room for all its steps. -/
theorem EndsIn.homeReceiverFrom {steps : Nat} {value last : Value}
    (ends : heap.EndsIn steps value last) {room : Nat} (enough : steps < room) :
    Frame.homeReceiverFrom heap room value = some last := by
  induction ends generalizing room with
  | here plain =>
    obtain ⟨room, rfl⟩ := Nat.exists_eq_add_one.mpr enough
    exact Frame.homeReceiverFrom_plain plain
  | out leads _ inductionHypothesis =>
    obtain ⟨room, rfl⟩ := Nat.exists_eq_add_one.mpr (Nat.zero_lt_of_lt enough)
    obtain ⟨block, rfl, next⟩ := leads
    simp only [Frame.homeReceiverFrom, next]
    exact inductionHypothesis (Nat.lt_of_succ_lt_succ enough)

end Heap

/--
In every state that a program comes to without storing into slot zero of a context, no chain of
blocks and the receivers that their contexts keep goes on for ever. From any value it takes no
more steps than there are contexts to one that is no block with a context, and every frame finds
the one that its own receiver leads to.
-/
theorem receiver_chains_end {state : State} (ensues : State.Ensues State.SparesContexts state)
    {machine : Machine} (same : machine.heap.scene = state.scene) :
    WellFounded machine.heap.LeadsOut ∧
      ∀ value, ∃ steps last, steps ≤ machine.heap.contexts.size ∧
        machine.heap.EndsIn steps value last ∧ ¬machine.heap.scene.HoldsContext last ∧
        ∀ frame : Frame, frame.receiver = value →
          frame.homeReceiver machine = .ok last machine := by
  have inward : machine.heap.scene.Inward := same ▸ ensues.inward
  have links : machine.heap.scene.Links state.homes := same ▸ ensues.links
  refine ⟨Heap.leadsOut_wellFounded inward, fun value => ?_⟩
  obtain ⟨steps, last, few, ends⟩ := Heap.exists_endsIn inward value
  have few := Nat.le_trans few (Heap.rank_le links value)
  refine ⟨steps, last, few, ends, ends.plain, ?_⟩
  rintro frame rfl
  exact Frame.homeReceiver_eq.mpr (ends.homeReceiverFrom (by omega))

/-! ### A method called on the blocks that it makes -/

namespace State

/-- Makes a block and answers it. -/
def blockMaker : Method :=
  { (default : Method) with
    scope := .outermost (.of [] [] true)
    literals := #[.invokable (.method ⟨0⟩)]
    code := ([.pushBlock 0 true, .returnLocal] : List Instruction).flatMap
      Instruction.encode |>.toArray
    maxStack := 1 }

def blockMakerHeap : Heap := ((namelessHeap.addMethod askingBlock).2.addMethod blockMaker).2

/-- The state some steps after the method has been called on a block that is there. -/
def calledOn? (block : BlockId) (count : Nat) (state : State) : Option State :=
  if state.step.isNone ∧ state.machine.heap.blocks.Has block then
    Ensues.within? SparesContexts count
      ⟨state.machine, .call ⟨.method ⟨1⟩, .block block, .none⟩, []⟩
  else none

theorem Ensues.calledOn {state last : State} {block : BlockId} {count : Nat}
    (ensues : Ensues SparesContexts state) (leads : calledOn? block count state = some last) :
    Ensues SparesContexts last := by
  unfold calledOn? at leads
  split at leads
  · rename_i here
    have given : (Canon.present state.machine.heap.extent).All [.block block] := .one here.2
    have called := ensues.called (Option.isNone_iff_eq_none.mp here.1)
      ⟨.method ⟨1⟩, .block block, .none⟩ given
    exact called.within leads
  · cases leads

/-- The method has been called on nil, on the block it made, and on the next block. -/
def blockMakerTwice : Option State :=
  (Ensues.within? SparesContexts 4
    ⟨.ofHeap blockMakerHeap {}, .call ⟨.method ⟨1⟩, .nil, .none⟩, []⟩).bind fun state =>
      (calledOn? ⟨0⟩ 4 state).bind (calledOn? ⟨1⟩ 2)

theorem ensues_blockMaker {state : State} (leads : blockMakerTwice = some state) :
    Ensues SparesContexts state := by
  have start : Ensues SparesContexts (idle (Machine.ofHeap namelessHeap {})) :=
    .start ⟨by decide +kernel, fun _ _ found => by cases found⟩
  have inner := start.tended (.addMethod askingBlock (fun _ _ found => by cases found)
    fun value member => (Array.not_mem_empty value member).elim)
  have knows : (namelessHeap.addMethod askingBlock).2.symbols.Knows blockMaker.literals := by
    intro index selector found
    match index, found with
    | 0, found => cases found
  have home := inner.tended (.addMethod blockMaker knows fun value member => by
    obtain rfl : value = .invokable (.method ⟨0⟩) := Array.mem_singleton.mp member
    trivial)
  have called := home.called rfl ⟨.method ⟨1⟩, .nil, .none⟩
    (show (Canon.present blockMakerHeap.extent).All [.nil] from .one trivial)
  obtain ⟨first, made, leads⟩ := Option.bind_eq_some_iff.mp leads
  obtain ⟨second, nested, leads⟩ := Option.bind_eq_some_iff.mp leads
  exact ((called.within made).calledOn nested).calledOn leads

/-- The method runs on the second block, whose context keeps the first. -/
def nests (state : State) : Bool :=
  decide (Frame.outerReceiver? state.machine.heap ⟨1⟩ = some (.block ⟨0⟩) ∧
    Frame.outerReceiver? state.machine.heap ⟨0⟩ = some .nil) &&
  match state.focus with
  | .turn _ live => decide (live.activation.frame.receiver = .block ⟨1⟩)
  | _ => false

/-- The activations that made the blocks are over, and nil is found behind both blocks. -/
theorem escaped_blocks_lead_to_nil :
    ∃ state leg live, Ensues SparesContexts state ∧ state.focus = .turn leg live ∧
      live.activation.frame.receiver = .block ⟨1⟩ ∧
      state.machine.heap.EndsIn 2 (.block ⟨1⟩) .nil ∧
      live.activation.frame.homeReceiver state.machine = .ok .nil state.machine := by
  have runs : blockMakerTwice.any nests = true := by decide +kernel
  obtain ⟨state, leads, nests⟩ := (Option.any_eq_true _ _).mp runs
  have ensues := ensues_blockMaker leads
  unfold State.nests at nests
  rw [Bool.and_eq_true, decide_eq_true_iff] at nests
  obtain ⟨⟨second, first⟩, turns⟩ := nests
  split at turns
  · rename_i leg live focus
    have receives := of_decide_eq_true turns
    obtain ⟨steps, last, -, ends, -, found⟩ := (receiver_chains_end ensues rfl).2 (.block ⟨1⟩)
    obtain ⟨steps, rfl, nearer⟩ := ends.of_leadsOut ⟨⟨1⟩, rfl, second⟩
    obtain ⟨steps, rfl, nearest⟩ := nearer.of_leadsOut ⟨⟨0⟩, rfl, first⟩
    cases nearest with
    | here => exact ⟨state, leg, live, ensues, focus, receives, ends, found _ receives⟩
    | out leads =>
      obtain ⟨_, same, -⟩ := leads
      cases same
  · cases turns

end State

end ObjectMachine
