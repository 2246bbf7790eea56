/-
This file proves that a block which returns from its home reaches that home and no other
activation, through everything that waits in between, and that a block whose home has ended
asks its home receiver instead. So no message that a host sends is ever answered by a return
that has missed its home. All this is about machines that have not broken off: one that has
leaves contexts on the stack whose activations are gone.
-/

import ObjectMachine.Proofs.Adequacy
import ObjectMachine.Proofs.Homes
import ObjectMachine.Bytecode.Assembler

namespace ObjectMachine

namespace Scene

/-- The ends of activations, one after the other. -/
def finishAll (scene : Scene) (homes : List Home) : Scene :=
  homes.foldl (fun scene home => scene.finish home.context) scene

/-- The contexts of the activations are off the stack, all others as they were. -/
theorem onStack_finishAll (scene : Scene) (homes : List Home) (context : ContextId)
    (has : scene.contexts.Has context) :
    ((scene.finishAll homes).contexts.get context).onStack =
      ((scene.contexts.get context).onStack &&
        homes.all fun home => home.context != some context) := by
  induction homes generalizing scene with
  | nil => simp [finishAll]
  | cons home homes inductionHypothesis =>
    have ended := (scene.has_context_finish home.context context).mpr has
    rw [finishAll, List.foldl_cons, ← finishAll, inductionHypothesis _ ended,
      onStack_finish _ _ _ has, List.all_cons, Bool.and_assoc]

end Scene

namespace Home

variable {home : Home} {value : Value} {target : ContextId}

theorem focus_of_caught (anchored : home.context = some target) (catches : home.catches = true) :
    home.focus (.error (.nonLocalReturn value target)) = .answer value :=
  if_pos (by simp [anchored, catches])

theorem focus_of_passed (other : home.context ≠ some target) :
    home.focus (.error (.nonLocalReturn value target)) = .fail (.nonLocalReturn value target) :=
  if_neg (by simp [other])

end Home

namespace State

section

variable {α : Type} {computation : Engine α} {machine later : Machine}
  {done : α → Machine → State} {failed : Abrupt → Machine → State}

theorem after_of_ok {value : α} (ran : computation machine = .ok value later) :
    after computation machine done failed = done value later := by
  rw [after, ran]

theorem after_of_error {abrupt : Abrupt} (ran : computation machine = .error abrupt later) :
    after computation machine done failed = failed abrupt later := by
  rw [after, ran]

end

/-! ### Unwinding -/

/-- Steps in which nothing happens but that something fails on. -/
inductive Passes (abrupt : Abrupt) : State → State → Prop
  | last {first second : State} (stepped : first.step = some second) : Passes abrupt first second
  | more {first second third : State} (stepped : first.step = some second)
    (fails : second.focus = .fail abrupt) (rest : Passes abrupt second third) :
    Passes abrupt first third

/-- The machine after an activation has been left by a return. -/
def passed (live : Live) (value : Value) (target : ContextId) (machine : Machine) : Machine :=
  closed live (.error (.nonLocalReturn value target)) machine

theorem scene_passed (live : Live) (value : Value) (target : ContextId) (machine : Machine) :
    (passed live value target machine).heap.scene =
      machine.heap.scene.finish live.home.context :=
  Heap.scene_finishContext _ _

/-- A return goes through what waits to its home, which answers the value. -/
theorem unwinds {value : Value} {target : ContextId} {above outer : List Home} {home : Home}
    (waiting : List Waiting) (machine : Machine)
    (homes : waiting.filterMap Waiting.home? = above ++ home :: outer)
    (others : ∀ other ∈ above, other.context ≠ some target)
    (anchored : home.context = some target) (catches : home.catches = true) :
    ∃ inner later,
      Passes (.nonLocalReturn value target) (failed waiting (.nonLocalReturn value target) machine)
        later ∧
      later.focus = .answer value ∧ waiting = inner ++ later.waiting ∧ later.homes = outer ∧
      later.scene = machine.heap.scene.finishAll (above ++ [home]) := by
  induction waiting generalizing machine above with
  | nil => cases above <;> cases homes
  | cons waits waiting inductionHypothesis =>
    cases waits with
    | operation pending =>
      obtain ⟨inner, later, passes, focus, rest, left, scene⟩ :=
        inductionHypothesis machine homes others
      exact ⟨.operation pending :: inner, later, .more rfl rfl passes, focus, congrArg _ rest,
        left, scene⟩
    | activation leg live next reply =>
      have stepped : (failed (.activation leg live next reply :: waiting)
          (.nonLocalReturn value target) machine).step =
          some ⟨passed live value target machine,
            live.home.focus (.error (.nonLocalReturn value target)), waiting⟩ :=
        congrArg some (abandoned_eq live waiting _ machine)
      rw [List.filterMap_cons_some (show Waiting.home? _ = some live.home from rfl)] at homes
      cases above with
      | nil =>
        obtain ⟨rfl, rest⟩ := List.cons.inj homes
        rw [Home.focus_of_caught anchored catches] at stepped
        exact ⟨[.activation leg live next reply], _, .last stepped, rfl, rfl, rest,
          scene_passed live value target machine⟩
      | cons first above =>
        obtain ⟨rfl, rest⟩ := List.cons.inj homes
        rw [Home.focus_of_passed (others _ List.mem_cons_self)] at stepped
        obtain ⟨inner, later, passes, focus, waits, left, scene⟩ :=
          inductionHypothesis (passed live value target machine) rest fun other member =>
            others other (List.mem_cons_of_mem _ member)
        refine ⟨.activation leg live next reply :: inner, later, .more stepped rfl passes, focus,
          congrArg _ waits, left, ?_⟩
        rw [scene, scene_passed]
        rfl

/-! ### The return from a home -/

/-- The turn of an instruction that has been read. -/
theorem advance_of_fetched {leg : Leg} {activation : Activation} {offset : Nat}
    {machine : Machine} {node : ThreadedNode} (fetched : leg.fetch activation offset machine =
      .ok node machine) :
    leg.advance activation offset machine = leg.perform activation offset node machine :=
  Engine.bind_of_ok fetched

theorem perform_returnNonLocal (leg : Leg) (activation : Activation) (offset next : Nat)
    (level : UInt8) :
    leg.perform activation offset ⟨.returnNonLocal level, next⟩ =
      activation.returnNonLocalAttempt level >>= leg.close offset next := by
  have other (literal : UInt8) (arity : Arity) :
      Instruction.returnNonLocal level ≠ .send literal arity := fun same => by cases same
  rw [Leg.perform, leg.stopsBefore_of_not_send activation other, pure_bind]
  cases leg <;> rfl

/-- What a return does that finds its target. -/
theorem returnNonLocalAttempt_of_targets {activation : Activation} {machine : Machine}
    {level : UInt8} {block : BlockId} {value : Value} {target : ContextId} {stack : OperandStack}
    (outer : level ≠ 0) (popped : activation.stack.pop? = some (value, stack))
    (found : activation.frame.blockAt level.toNat machine = .ok block machine)
    (captured : (machine.heap.blocks.get block).context = some target) :
    activation.returnNonLocalAttempt level machine =
      if machine.heap.isHomeRunning block then .error (.nonLocalReturn value target) machine
      else (do
        let made ← ({ activation with stack } : Activation).escapeCall
        return Attempt.call made { activation with stack } .answer) machine := by
  rw [Activation.returnNonLocalAttempt, Engine.bind_of_ok (Activation.pop_of_some popped)]
  dsimp only
  rw [if_neg outer, Engine.bind_of_ok found,
    Engine.bind_of_ok (show Engine.heapValue _ machine = .ok _ machine from rfl), captured]
  dsimp only
  rw [Engine.bind_of_ok (show Engine.heapValue _ machine = .ok _ machine from rfl)]
  split <;> rfl

/--
The activation at home answers the value and those above it end on the way, with no other
answer and no other instruction in between.
-/
def ReturnsTo (state : State) (value : Value) (target : ContextId) (above : List Home)
    (home : Home) (outer : List Home) : Prop :=
  ∃ inner later, Passes (.nonLocalReturn value target) state later ∧
    later.focus = .answer value ∧ state.waiting = inner ++ later.waiting ∧ later.homes = outer ∧
    ∀ context, state.scene.contexts.Has context →
      (later.scene.contexts.get context).onStack =
        ((state.scene.contexts.get context).onStack &&
          (above ++ [home]).all fun ended => ended.context != some context)

/--
The home receiver is sent that the block has escaped, and its answer is the one of the
activation that wanted to return.
-/
def Escapes (state : State) : Prop :=
  ∃ leg live activation next, state.focus = .turn leg live ∧
    activation.In live.activation.method live.activation.frame ∧
    state.step = some (after activation.escapeCall state.machine
      (fun made machine =>
        ⟨machine, .call made,
          .activation leg { live with activation } next .answer :: state.waiting⟩)
      (abandoned live state.waiting)) ∧
    ∀ answer machine,
      (answered (.activation leg { live with activation } next .answer :: state.waiting) answer
        machine).step = some ⟨closed live (.ok answer) machine, .answer answer, state.waiting⟩

section

variable {state : State} {block : BlockId} {value : Value} {target : ContextId}

theorem returnsTo_of_running (returns : state.Returns block value target)
    (running : state.machine.heap.isHomeRunning block = true) {above outer : List Home}
    {home : Home} (homes : state.homes = above ++ home :: outer)
    (others : ∀ other ∈ above, other.context ≠ some target)
    (anchored : home.context = some target) (catches : home.catches = true) :
    state.ReturnsTo value target above home outer := by
  obtain ⟨machine, focus, waiting⟩ := state
  obtain ⟨leg, live, ⟨instruction, next⟩, turns, fetched, level, stack, same, outward, popped,
    found, captured⟩ := returns
  cases turns
  cases same
  have failed : leg.advance live.activation live.offset machine =
      .error (.nonLocalReturn value target) machine := by
    rw [advance_of_fetched fetched, perform_returnNonLocal]
    refine Engine.bind_of_error ?_
    rw [returnNonLocalAttempt_of_targets outward popped found captured, if_pos running]
  have stepped : State.step ⟨machine, .turn leg live, waiting⟩ =
      some ⟨passed live value target machine,
        live.home.focus (.error (.nonLocalReturn value target)), waiting⟩ := by
    rw [passed, ← abandoned_eq]
    simp only [State.step, after, failed]
  rw [homes_of_turn rfl] at homes
  have reached : ∃ inner later,
      Passes (.nonLocalReturn value target) ⟨machine, .turn leg live, waiting⟩ later ∧
      later.focus = .answer value ∧ waiting = inner ++ later.waiting ∧ later.homes = outer ∧
      later.scene = machine.heap.scene.finishAll (above ++ [home]) := by
    cases above with
    | nil =>
      obtain ⟨rfl, rest⟩ := List.cons.inj homes
      rw [Home.focus_of_caught anchored catches] at stepped
      exact ⟨[], _, .last stepped, rfl, rfl, rest, scene_passed live value target machine⟩
    | cons first above =>
      obtain ⟨rfl, rest⟩ := List.cons.inj homes
      rw [Home.focus_of_passed (others _ List.mem_cons_self)] at stepped
      obtain ⟨inner, later, passes, focus, waits, left, scene⟩ :=
        unwinds waiting (passed live value target machine) rest
          (fun other member => others other (List.mem_cons_of_mem _ member)) anchored catches
      refine ⟨inner, later, .more stepped rfl passes, focus, waits, left, ?_⟩
      rw [scene, scene_passed]
      rfl
  obtain ⟨inner, later, passes, focus, waits, left, scene⟩ := reached
  refine ⟨inner, later, passes, focus, waits, left, fun context has => ?_⟩
  rw [scene]
  exact Scene.onStack_finishAll _ _ context has

theorem escapes_of_ended (returns : state.Returns block value target)
    (ended : state.machine.heap.isHomeRunning block = false) : state.Escapes := by
  obtain ⟨machine, focus, waiting⟩ := state
  obtain ⟨leg, live, ⟨instruction, next⟩, turns, fetched, level, stack, same, outward, popped,
    found, captured⟩ := returns
  cases turns
  cases same
  let activation : Activation := { live.activation with stack }
  refine ⟨leg, live, activation, next, rfl, ⟨rfl, rfl⟩, congrArg some ?_, fun answer after => ?_⟩
  · have attempted := returnNonLocalAttempt_of_targets outward popped found captured
    rw [ended, if_neg Bool.false_ne_true] at attempted
    have advances := advance_of_fetched fetched
    rw [perform_returnNonLocal] at advances
    cases escaped : activation.escapeCall machine with
    | ok made later =>
      have called := attempted.trans (Engine.bind_of_ok escaped)
      rw [after_of_ok escaped, after_of_ok (advances.trans (Engine.bind_of_ok called))]
      rfl
    | error abrupt later =>
      have failed := attempted.trans (Engine.bind_of_error escaped)
      rw [after_of_error escaped, after_of_error (advances.trans (Engine.bind_of_error failed))]
  · cases leg <;> rfl

end

/-! ### Sends of a host -/

end State

namespace Engine

/-- The call that a send of a host leads to. -/
def sendCall (receiver : Value) (selector : String) (arguments : List Value) : Engine Call := do
  messageCall receiver (← intern selector) arguments

theorem send_eq (fuel : Nat) (receiver : Value) (selector : String) (arguments : List Value) :
    send fuel receiver selector arguments =
      sendCall receiver selector arguments >>= Call.make (invoke fuel) := by
  simp only [send, sendCall, Caller.sendMessage_eq, bind_assoc]

theorem mild_sendCall (receiver : Value) (selector : String) (arguments : List Value) :
    Mild (sendCall receiver selector arguments) :=
  .bind (mild_allocate fun _ => rfl) fun symbol _ =>
    mild_messageCall receiver symbol arguments

end Engine

namespace State

variable {rule : State → Prop}

/--
What is reached from a state of a program is one, if the rule is obeyed on the way. A machine
that has not broken off in the end has not done so before.
-/
theorem Visited.reaches {first last : State} {count : Nat} (visited : first.Visited rule)
    (obeys : ∀ count later, Reaches count first later → rule later)
    (reaches : Reaches count first last) (whole : last.brokenOff = false) :
    last.Visited rule := by
  induction reaches with
  | here => exact visited
  | @step count first second last stepped rest inductionHypothesis =>
    have unbroken : second.brokenOff = false := Bool.eq_false_iff.mpr fun broken =>
      Bool.eq_false_iff.mp whole (brokenOff_of_reaches broken rest)
    exact inductionHypothesis (.stepped visited (obeys 0 _ .here) stepped unbroken)
      (fun count later reaches => obeys (count + 1) later (.step stepped reaches)) whole

/-- The start of a send of a host is a state of the program. -/
theorem Visited.sent {state : State} (visited : state.Visited rule) (rests : state.step = none)
    {receiver : Value} {selector : String} {arguments : List Value} {made : Call}
    {machine : Machine}
    (called : Engine.sendCall receiver selector arguments state.machine = .ok made machine) :
    Visited rule ⟨machine, .call made, []⟩ := by
  have ends := (Engine.mild_sendCall receiver selector arguments).quiet state.machine
  rw [called] at ends
  cases ends with
  | ok same =>
    have idles : Visited rule (idle machine) :=
      .hosted visited rests (congrArg Scene.contexts same) (congrArg Scene.blocks same)
    exact .called idles rfl made

/-- The targets of returns are told apart by the live activations. -/
theorem context_ne_of_above {homes above outer : List Home} {home : Home} {context : ContextId}
    (apart : (homes.filterMap Home.context).Nodup) (split : homes = above ++ home :: outer)
    (anchored : home.context = some context) :
    ∀ other ∈ above, other.context ≠ some context := by
  intro other member same
  rw [split, List.filterMap_append, List.filterMap_cons_some anchored] at apart
  have twice := (List.nodup_append.mp apart).2.2 context
    (List.mem_filterMap.mpr ⟨other, member, same⟩) context List.mem_cons_self
  exact twice rfl

theorem isHomeRunning_iff {state : State} {block : BlockId} {context : ContextId}
    (captured : (state.scene.blocks.get block).context = some context) :
    state.machine.heap.isHomeRunning block = (state.scene.contexts.get context).onStack := by
  rw [Heap.isHomeRunning, Heap.blockContext?,
    show (state.machine.heap.blocks.get block).context = some context from captured]
  rfl

/--
Returns from homes, as long as the machine does not break off. A context that a block holds is on
the stack exactly as long as its activation is live, and no two live activations share one. A
block that returns while its home is live gets there, and one that returns later asks its home
receiver. So a host gets no return for an answer.
-/
theorem returns_end_at_home {state : State} (visited : state.Visited Catches) :
    (∀ block context, (state.scene.blocks.get block).context = some context →
      ((state.scene.contexts.get context).onStack = true ↔
        ∃ home ∈ state.homes, home.context = some context)) ∧
    (state.homes.filterMap Home.context).Nodup ∧
    (state.Catches → ∀ block value target, state.Returns block value target →
      (∀ above home outer, state.homes = above ++ home :: outer → home.context = some target →
        state.ReturnsTo value target above home outer) ∧
      ((∀ home ∈ state.homes, home.context ≠ some target) → state.Escapes)) ∧
    (state.step = none → ∀ receiver selector arguments,
      (∀ made machine,
        Engine.sendCall receiver selector arguments state.machine = .ok made machine →
        ∀ count later, Reaches count ⟨machine, .call made, []⟩ later → later.Catches) →
      ∀ fuel value target after, Engine.send fuel receiver selector arguments state.machine ≠
        .error (.nonLocalReturn value target) after) := by
  obtain ⟨links, homed, -⟩ := visited.linked
  refine ⟨fun block context captured => ⟨homed block context captured, ?_⟩, links.apart,
    fun catches block value target returns => ?_, fun rests receiver selector arguments obeys => ?_⟩
  · rintro ⟨home, member, anchored⟩
    exact (links.running home member context anchored).2
  · have captured : (state.scene.blocks.get block).context = some target := by
      obtain ⟨_, _, _, _, _, _, _, _, _, _, _, captured⟩ := returns
      exact captured
    refine ⟨fun above home outer split anchored => ?_, fun ended => ?_⟩
    · have member : home ∈ state.homes := by
        rw [split]
        exact List.mem_append_right _ List.mem_cons_self
      have running := (isHomeRunning_iff captured).trans
        (links.running home member target anchored).2
      have flag := (links.flagged home member).trans
        (catches block value target returns home member anchored)
      exact returnsTo_of_running returns running split
        (context_ne_of_above links.apart split anchored) anchored flag
    · refine escapes_of_ended returns ?_
      rw [isHomeRunning_iff captured]
      cases running : (state.scene.contexts.get target).onStack with
      | false => rfl
      | true =>
        obtain ⟨home, member, anchored⟩ := homed block target captured running
        exact (ended home member anchored).elim
  · intro fuel value target after failed
    rw [Engine.send_eq] at failed
    have sends := (Engine.mild_sendCall receiver selector arguments).quiet state.machine
    cases called : Engine.sendCall receiver selector arguments state.machine with
    | error abrupt later =>
      rw [Engine.bind_of_error called] at failed
      rw [called] at sends
      cases failed
      cases sends with
      | error _ ordinary => exact ordinary value target rfl
    | ok made machine =>
      rw [Engine.bind_of_ok called] at failed
      have fueled : Abrupt.nonLocalReturn value target ≠ .outOfFuel := fun same => by cases same
      obtain ⟨count, reaches⟩ := reaches_failed failed fueled []
      have ends := (visited.sent rests called).reaches (obeys made machine called) reaches rfl
      obtain ⟨home, member, -⟩ := ends.linked.returning value target rfl
      cases member

/-! ### A return through a message -/

/-- The return that is about to happen. -/
def returning? (state : State) : Option (BlockId × Value × ContextId) :=
  match state.focus with
  | .turn leg live =>
    match leg.fetch live.activation live.offset state.machine with
    | .ok ⟨.returnNonLocal level, _⟩ _ =>
      if level = 0 then none
      else
        live.activation.stack.pop?.bind fun popped =>
          match live.activation.frame.blockAt level.toNat state.machine with
          | .ok block _ =>
            (state.machine.heap.blocks.get block).context.map fun target =>
              (block, popped.1, target)
          | .error _ _ => none
    | _ => none
  | _ => none

theorem returning?_eq_some {state : State} {block : BlockId} {value : Value}
    {target : ContextId} :
    state.returning? = some (block, value, target) ↔ state.Returns block value target := by
  constructor
  · intro found
    unfold returning? at found
    split at found
    · rename_i leg live turns
      split at found
      · rename_i level next after fetched
        have same := (leg.looks_fetch _ _).of_ok fetched
        subst same
        split at found
        · cases found
        · rename_i outer
          obtain ⟨⟨popped, stack⟩, pops, found⟩ := Option.bind_eq_some_iff.mp found
          split at found
          · rename_i outward
            have same := (Frame.looks_blockAt _ _).of_ok outward
            subst same
            obtain ⟨context, captured, same⟩ := Option.map_eq_some_iff.mp found
            cases same
            exact ⟨leg, live, ⟨.returnNonLocal level, next⟩, turns, fetched, level, stack, rfl,
              outer, pops, outward, captured⟩
          · cases found
      · cases found
    · cases found
  · rintro ⟨leg, live, ⟨instruction, next⟩, turns, fetched, level, stack, same, outer, popped,
      found, captured⟩
    cases same
    simp only [returning?, turns, fetched, if_neg outer, popped, found, captured, Option.bind_some,
      Option.map_some]

/-- Where a number of steps lead to, if none returns from a home and none breaks off. -/
def stroll? : (count : Nat) → State → Option State
  | 0, state => some state
  | count + 1, state =>
    if state.returning?.isNone then (state.step.filter (! ·.brokenOff)).bind (stroll? count)
    else none

theorem Visited.stroll {count : Nat} {first last : State} (visited : first.Visited Catches)
    (strolls : first.stroll? count = some last) : last.Visited Catches := by
  induction count generalizing first with
  | zero =>
    cases strolls
    exact visited
  | succ count inductionHypothesis =>
    rw [stroll?] at strolls
    split at strolls
    · rename_i none
      obtain ⟨next, found, strolls⟩ := Option.bind_eq_some_iff.mp strolls
      obtain ⟨stepped, whole⟩ := Option.filter_eq_some_iff.mp found
      refine inductionHypothesis (.stepped visited (fun block value target returns => ?_) stepped
        (by simpa using whole)) strolls
      rw [returning?_eq_some.mpr returns] at none
      cases none
    · cases strolls

/-- Classes that all understand one message, by the first primitive. -/
def detourHeap : Heap :=
  { (default : Heap) with
    symbols := (SymbolTable.intern {} "value").2
    classes := ⟨Array.replicate CoreClass.all.length
      { (default : Class) with methods := ({} : Dictionary Invokable).insert ⟨0⟩ (.primitive ⟨0⟩) }⟩
    primitives := ⟨#[⟨⟨0⟩, OperationEntry.table.idxOf .blockValue, none⟩]⟩ }

/-- Answers one from its home. -/
def detourBlock : Method :=
  { (default : Method) with
    scope := (Scope.outermost (.of [] [] true)).nested (.of [] [] false)
    code := ([.pushOne, .returnNonLocal 1] : List Instruction).flatMap Instruction.encode |>.toArray
    maxStack := 1 }

/-- Evaluates the block. -/
def detourHome : Method :=
  { (default : Method) with
    scope := .outermost (.of [] [] true)
    catchesReturns := true
    literals := #[.invokable (.method ⟨0⟩), .symbol ⟨0⟩]
    code := ([.pushBlock 0 true, .send 1 .one, .pop, .returnSelf] : List Instruction).flatMap
      Instruction.encode |>.toArray
    maxStack := 1 }

def detourMachine : Machine :=
  { (default : Machine) with
    heap := ((detourHeap.addMethod detourBlock).2.addMethod detourHome).2
    config := { maxDepth := 2 } }

/-- The call of the home on its machine. -/
def detour : State := ⟨detourMachine, .call ⟨.method ⟨1⟩, .nil, .none⟩, []⟩

/-- A block is about to return through the primitive that has evaluated it. -/
def returnsOnDetour (state : State) : Bool :=
  state.returning? = some (⟨0⟩, .integer 1, ⟨0⟩) ∧ state.waiting.length = 2 ∧
    state.homes.map Home.context = [none, some ⟨0⟩] ∧
    state.homes.all fun home =>
      home.context.isNone || (state.scene.methods.get home.method).catchesReturns

theorem detour_ends_at_home :
    ∃ state : State, state.Visited Catches ∧ state.waiting.length = 2 ∧
      ∃ other home, state.homes = [other, home] ∧
        state.ReturnsTo (.integer 1) ⟨0⟩ [other] home [] := by
  have strolls : (detour.stroll? 8).any returnsOnDetour = true := by decide +kernel
  obtain ⟨state, reached, returns⟩ := (Option.any_eq_true _ _).mp strolls
  obtain ⟨returning, waits, contexts, flags⟩ := of_decide_eq_true returns
  have visited : state.Visited Catches :=
    .stroll (.called (.first (show detourMachine.heap.blocks.size = 0 from rfl)) rfl _) reached
  have catches : state.Catches := by
    intro block value target _ home member anchored
    simpa [anchored] using List.all_eq_true.mp flags home member
  obtain ⟨other, rest, homes, -, one⟩ := List.map_eq_cons_iff.mp contexts
  obtain ⟨home, rest, rfl, anchored, none⟩ := List.map_eq_cons_iff.mp one
  obtain rfl := List.map_eq_nil_iff.mp none
  refine ⟨state, visited, waits, other, home, homes, ?_⟩
  have ends := (returns_end_at_home visited).2.2.1 catches ⟨0⟩ _ _
    (returning?_eq_some.mp returning)
  exact ends.1 [other] home [] homes anchored

end State

end ObjectMachine
