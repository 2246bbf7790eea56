/-
This file reasons about small steps as a program is read: code leads from one point of a run to
another on every machine of a kind. All machines of a stage run its code in the sequential
mode; they differ in what their methods have learned, of which nothing is asked but that it
fits, and in their objects. So an instruction has one rule, whether it is run for the first
time or again, and a loop or a recursion is an induction over points.
-/

import ObjectMachine.Proofs.Adequacy
import ObjectMachine.Proofs.CacheEntries
import ObjectMachine.Proofs.CachedSends
import ObjectMachine.Proofs.VariableAccess

namespace ObjectMachine

/-! ### What runs leave as it was -/

namespace Heap

theorem primitives_apply (change : Change) (heap : Heap) :
    (change.apply heap).primitives = heap.primitives := by
  cases change with
  | finishContext context => cases context <;> rfl
  | setField object field value =>
    exact (congrArg Heap.primitives (heap.framed_setField object field value) :)
  | migrate object => exact (congrArg Heap.primitives (heap.framed_migrate object) :)
  | _ => rfl

/-- The heap as it would be if no method had learned anything. -/
def unlearned (heap : Heap) : Heap := heap.withStates {}

end Heap

namespace Ledger

variable {first last : Ledger}

theorem Runs.code (runs : first.Runs last) : last.heap.code = first.heap.code := by
  induction runs with
  | refl => rfl
  | change _ change _ same => exact (Heap.code_apply change _).trans same
  | hidden _ after observed _ same => exact (congrArg Heap.code observed :).trans same

theorem Runs.primitives (runs : first.Runs last) :
    last.heap.primitives = first.heap.primitives := by
  induction runs with
  | refl => rfl
  | change _ change _ same => exact (Heap.primitives_apply change _).trans same
  | hidden _ after observed _ same => exact (congrArg Heap.primitives observed :).trans same

theorem Runs.siteCount (runs : first.Runs last) (method : MethodId) :
    last.heap.siteCount method = first.heap.siteCount method := by
  induction runs with
  | refl => rfl
  | change _ change _ same => exact (Heap.siteCount_apply change _ method).trans same
  | hidden _ after observed _ same =>
    rw [← same, ← Heap.siteCount_observed, observed, Heap.siteCount_observed]

/-- Nothing that runs changes what classes understand. -/
theorem Runs.lookup? (runs : first.Runs last) (sound : first.Sound) {cls : ClassId}
    (has : first.heap.classes.Has cls) (selector : Symbol) :
    last.heap.classes.Has cls ∧
      last.heap.lookup? cls selector = first.heap.lookup? cls selector := by
  have step {before after : Ledger} (advances : before.Advances (fun _ _ => False) after)
      (filed : before.Filed) (same : before.heap.classes.Has cls ∧
        before.heap.lookup? cls selector = first.heap.lookup? cls selector) :
      after.heap.classes.Has cls ∧
        after.heap.lookup? cls selector = first.heap.lookup? cls selector :=
    ⟨Nat.lt_of_lt_of_le same.1 advances.classes,
      (advances.lookup? filed same.1 fun _ _ nothing => nothing).trans same.2⟩
  induction runs with
  | refl => exact ⟨has, rfl⟩
  | change runs _ allowed same =>
    have filed := (runs.sound sound).toFiled
    exact step (filed.advances_change allowed) filed same
  | hidden runs _ observed _ same =>
    exact step (advances_hidden observed) (runs.sound sound).toFiled same

end Ledger

/-- An activation of a method in a frame, about to run its first instruction. -/
def Method.entry (row : Method) (method : MethodId) (frame : Frame) : Live where
  context := frame.context
  catches := row.catchesReturns
  activation := ⟨method, frame, .empty row.maxStack⟩
  offset := 0

/-! ### Stages -/

/-- The loop of the sequential mode. -/
abbrev Leg.plain : Leg := .sequential false

/-- What stays as it is while code runs, and what every method has room to learn. -/
structure Stage where
  ledger : Ledger
  maxDepth : Nat
  sound : ledger.Sound
  sited : ∀ method,
    ledger.heap.siteCount method = (ledger.heap.methods.get method).code.size

namespace Stage

variable (stage : Stage)

def code : Code := stage.ledger.heap.code

def methodAt (method : MethodId) : Method := stage.ledger.heap.methods.get method

/-- A machine of the stage, so many activations deep and with objects of a kind. -/
structure At (objects : Heap → Prop) (depth : Nat) (machine : Machine) : Prop where
  reaches : stage.ledger.Reaches machine
  tracing : machine.config.mode = .tracing
  maxDepth : machine.config.maxDepth = stage.maxDepth
  depth : machine.depth = depth
  objects : objects machine.heap.unlearned

namespace At

variable {stage : Stage} {objects others : Heap → Prop} {depth : Nat} {machine : Machine}
  (here : stage.At objects depth machine)

include here

theorem code : machine.heap.code = stage.code := by
  obtain ⟨last, runs, same⟩ := here.reaches
  rw [same]
  exact runs.code

theorem methods (method : MethodId) : machine.heap.methods.get method = stage.methodAt method :=
  congrArg (fun code : Code => code.methods.get method) here.code

theorem primitives : machine.heap.primitives = stage.ledger.heap.primitives := by
  obtain ⟨last, runs, same⟩ := here.reaches
  rw [same]
  exact runs.primitives

theorem coherent : machine.heap.Coherent := by
  obtain ⟨last, runs, same⟩ := here.reaches
  rw [same]
  exact (runs.sound stage.sound).ready.coherent

theorem sited (method : MethodId) :
    machine.heap.siteCount method = (machine.heap.methods.get method).code.size := by
  rw [here.methods]
  obtain ⟨last, runs, same⟩ := here.reaches
  rw [same, runs.siteCount]
  exact stage.sited method

theorem lookup? {cls : ClassId} (has : stage.ledger.heap.classes.Has cls) (selector : Symbol) :
    machine.heap.classes.Has cls ∧
      machine.heap.lookup? cls selector = stage.ledger.heap.lookup? cls selector := by
  obtain ⟨last, runs, same⟩ := here.reaches
  rw [same]
  exact runs.lookup? stage.sound has selector

/-- Caches cannot be told from lookups. -/
theorem lookupCached {method : MethodId} {offset : Nat} {selector : Symbol} {cls : ClassId}
    {shape : ShapeId} (sends : machine.heap.code.Sends method offset selector)
    (lays : machine.heap.Lays cls shape) (has : machine.heap.classes.Has cls) :
    (machine.heap.lookupCached cls shape selector (machine.heap.site method offset).cache).1 =
      machine.heap.lookup? cls selector := by
  obtain ⟨last, runs, same⟩ := here.reaches
  rw [same] at sends lays has ⊢
  exact (runs.sound stage.sound).lookupCached sends lays has

/-- A change that comes in the course of a run. -/
theorem changed {change : Change} (allowed : change.Allowed machine.heap)
    (known : others (change.apply machine.heap).unlearned) :
    stage.At others depth (machine.change change) := by
  obtain ⟨last, runs, same⟩ := here.reaches
  refine ⟨⟨_, runs.change change (same ▸ allowed), ?_⟩, here.tracing, here.maxDepth, here.depth,
    known⟩
  exact (congrArg (fun heap => Change.apply heap change) same :)

theorem imp (implies : ∀ heap, objects heap → others heap) : stage.At others depth machine :=
  ⟨here.reaches, here.tracing, here.maxDepth, here.depth, implies _ here.objects⟩

theorem moved (deep : Nat) : stage.At objects deep { machine with depth := deep } :=
  ⟨here.reaches, here.tracing, here.maxDepth, rfl, here.objects⟩

end At

end Stage

/-! ### Passages -/

/-- What is being done, and what waits for it. -/
structure Point where
  focus : Focus
  waiting : List Waiting

def Point.on (point : Point) (machine : Machine) : State := ⟨machine, point.focus, point.waiting⟩

/-- From the first point steps lead to the last one, on every machine of a kind. -/
def Passage (before : Machine → Prop) (first : Point) (after : Machine → Prop) (last : Point) :
    Prop :=
  ∀ machine, before machine → ∃ count later, after later ∧
    State.Reaches count (first.on machine) (last.on later)

namespace Passage

variable {before between after : Machine → Prop} {first second third : Point}

theorem here : Passage before first before first :=
  fun machine holds => ⟨0, machine, holds, .here⟩

theorem trans (left : Passage before first between second)
    (right : Passage between second after third) : Passage before first after third := by
  intro machine holds
  obtain ⟨count, middle, halfway, reaches⟩ := left machine holds
  obtain ⟨more, later, there, rest⟩ := right middle halfway
  exact ⟨count + more, later, there, reaches.trans rest⟩

theorem ofStep (steps : ∀ machine, before machine → ∃ later, after later ∧
    (first.on machine).step = some (second.on later)) : Passage before first after second := by
  intro machine holds
  obtain ⟨later, there, stepped⟩ := steps machine holds
  exact ⟨1, later, there, .step stepped .here⟩

end Passage

/-! ### Instructions -/

section

variable {stage : Stage} {objects others : Heap → Prop} {depth deep : Nat} {live : Live}
  {waiting : List Waiting} {instruction : Instruction} {length : Nat}

/-- A turn that reads the instruction and need not call. -/
theorem State.step_of_done {machine later : Machine} {flow : Flow} {next : Activation}
    {target : Nat}
    (fetched : Leg.plain.fetch live.activation live.offset machine =
      .ok ⟨instruction, live.offset + length⟩ machine)
    (unsent : ∀ literal arity, instruction ≠ .send literal arity)
    (begun : live.activation.begin live.offset instruction machine = .ok (.done flow next) later)
    (goes : flow.target? (live.offset + length) = some target) :
    (Point.on ⟨.turn .plain live, waiting⟩ machine).step =
      some (Point.on ⟨.turn .plain { live with activation := next, offset := target }, waiting⟩
        later) := by
  have advanced : Leg.plain.advance live.activation live.offset machine =
      .ok (.turned (.on next target)) later := by
    rw [Leg.advance_of_done fetched unsent begun]
    cases flow <;> cases goes <;> rfl
  have turns : (Point.on ⟨.turn .plain live, waiting⟩ machine).focus = .turn .plain live := rfl
  exact State.step_of_ok turns advanced

/-- A turn that goes as far as a call. -/
theorem State.step_of_call {machine later : Machine} {made : Call} {next : Activation}
    {reply : Reply}
    (fetched : Leg.plain.fetch live.activation live.offset machine =
      .ok ⟨instruction, live.offset + length⟩ machine)
    (begun : live.activation.begin live.offset instruction machine =
      .ok (.call made next reply) later) :
    (Point.on ⟨.turn .plain live, waiting⟩ machine).step =
      some (Point.on ⟨.call made, .activation .plain { live with activation := next }
        (live.offset + length) reply :: waiting⟩ later) := by
  have advanced : Leg.plain.advance live.activation live.offset machine =
      .ok (.call made next (live.offset + length) reply) later := by
    rw [Leg.advance, Engine.bind_of_ok fetched]
    exact Engine.bind_of_ok begun
  have turns : (Point.on ⟨.turn .plain live, waiting⟩ machine).focus = .turn .plain live := rfl
  exact State.step_of_ok turns advanced

/-- Where nothing can stand in the place of an instruction, it is what runs. -/
theorem Passage.ofDone {flow : Flow} {next : Activation} {target : Nat}
    (encoded : stage.code.encoded live.activation.method live.offset =
      .ok (instruction, length))
    (fixed : stage.code.resolution? live.activation.method instruction = none)
    (unsent : ∀ literal arity, instruction ≠ .send literal arity)
    (goes : flow.target? (live.offset + length) = some target)
    (begun : ∀ machine, stage.At objects depth machine → ∃ later,
      stage.At others deep later ∧
        live.activation.begin live.offset instruction machine = .ok (.done flow next) later) :
    Passage (stage.At objects depth) ⟨.turn .plain live, waiting⟩ (stage.At others deep)
      ⟨.turn .plain { live with activation := next, offset := target }, waiting⟩ := by
  refine .ofStep fun machine here => ?_
  obtain ⟨later, there, begun⟩ := begun machine here
  rw [← here.code] at encoded fixed
  obtain ⟨node, fetched, sameNext, same | resolved⟩ :=
    Leg.fetch_of_encoded .plain here.coherent encoded
  · obtain ⟨_, _⟩ := node
    cases same
    cases sameNext
    exact ⟨later, there, State.step_of_done fetched unsent begun goes⟩
  · cases fixed.symm.trans resolved

/-- An access to a variable is what it is resolved to, sooner or later. -/
theorem Passage.ofAccess {resolution : Instruction} {access : Access} {next : Activation}
    (encoded : stage.code.encoded live.activation.method live.offset =
      .ok (instruction, length))
    (accesses : instruction.access? = some access)
    (resolved : stage.code.resolution? live.activation.method instruction = some resolution)
    (unsent : ∀ literal arity, resolution ≠ .send literal arity)
    (begun : ∀ machine, stage.At objects depth machine → ∃ later,
      stage.At others deep later ∧
        live.activation.begin live.offset resolution machine = .ok (.done .next next) later) :
    Passage (stage.At objects depth) ⟨.turn .plain live, waiting⟩ (stage.At others deep)
      ⟨.turn .plain { live with activation := next, offset := live.offset + length }, waiting⟩ := by
  intro machine here
  have encodedHere := encoded
  have resolvedHere := resolved
  rw [← here.code] at encodedHere resolvedHere
  obtain ⟨⟨_, _⟩, fetched, rfl, rfl | same⟩ :=
    Leg.fetch_of_encoded .plain here.coherent encodedHere
  · -- The first time it only puts its resolution in its place.
    have patched : stage.At objects depth
        (machine.change (.patch live.activation.method live.offset resolution)) :=
      here.changed ⟨_, _, encodedHere, resolvedHere⟩ here.objects
    obtain ⟨later, there, begun⟩ := begun _ patched
    have turned := Leg.advance_of_done fetched (fun _ _ same => by cases same; cases accesses)
      (Activation.begin_of_resolved resolvedHere)
    have again : Leg.plain.fetch live.activation live.offset
        (machine.change (.patch live.activation.method live.offset resolution)) =
          .ok ⟨resolution, live.offset + length⟩ _ :=
      Leg.fetch_of_current _ (Heap.instructionAt_patch (here.sited _) encodedHere)
        fun _ same => by cases same
    have turns : (Point.on ⟨.turn .plain live, waiting⟩ machine).focus = .turn .plain live := rfl
    refine ⟨2, later, there, .step (State.step_of_ok turns turned) (.step ?_ .here)⟩
    exact State.step_of_done again unsent begun rfl
  · obtain rfl := Option.some.inj (same.symm.trans resolvedHere)
    obtain ⟨later, there, begun⟩ := begun machine here
    exact ⟨1, later, there, .step (State.step_of_done fetched unsent begun rfl) .here⟩

end

/-! ### Straight code -/

/-- Where instructions end that stand in code one after the other from an offset on. -/
def spelled? (code : Array UInt8) : (offset : Nat) → List Instruction → Option Nat
  | offset, [] => some offset
  | offset, instruction :: rest =>
    match decodeAt code offset with
    | .ok (found, length) =>
      if found = instruction then spelled? code (offset + length) rest else none
    | .error _ => none

theorem spelled?_cons {code : Array UInt8} {offset target : Nat} {instruction : Instruction}
    {rest : List Instruction} (spelled : spelled? code offset (instruction :: rest) = some target) :
    ∃ length, decodeAt code offset = .ok (instruction, length) ∧
      spelled? code (offset + length) rest = some target := by
  unfold spelled? at spelled
  split at spelled
  · rename_i found length decoded
    split at spelled
    · rename_i same
      exact ⟨length, same ▸ decoded, spelled⟩
    · cases spelled
  · cases spelled

namespace Activation

theorem begin_of_execute {activation next : Activation} {offset : Nat}
    {instruction : Instruction} {machine later : Machine} {flow : Flow}
    (plain : activation.begin offset instruction = (do
      let made ← activation.execute noCall offset instruction
      return .done made.1 made.2))
    (ran : activation.execute noCall offset instruction machine = .ok (flow, next) later) :
    activation.begin offset instruction machine = .ok (.done flow next) later := by
  rw [plain, Engine.bind_of_ok ran]
  rfl

theorem jumpTarget_of_some {activation : Activation} {offset target : Nat}
    {instruction : Instruction} (goes : instruction.jumpTarget? offset = some target)
    (machine : Machine) :
    activation.jumpTarget offset instruction machine = .ok target machine := by
  rw [jumpTarget, goes]
  rfl

/-- What an instruction does that only moves values of the activation and of its method. -/
def moved? (activation : Activation) (row : Method) : Instruction → Option Activation
  | .dup => activation.stack.peek? 0 >>= pushed?
  | .dupSecond => activation.stack.peek? 1 >>= pushed?
  | .pushFrame slot => activation.frame.slots[slot.toNat]? >>= pushed?
  | .pushConstant literal => row.literal? literal >>= pushed?
  | .pushZero => pushed? (.integer 0)
  | .pushOne => pushed? (.integer 1)
  | .pop => do
    let (_, stack) ← activation.stack.pop?
    return { activation with stack }
  | .popFrame slot => do
    let (value, stack) ← activation.stack.pop?
    let slots := activation.frame.slots
    if slot.toNat < slots.size then
      return { activation with
        frame := { activation.frame with slots := slots.setIfInBounds slot.toNat value }
        stack }
    else none
  | _ => none
where
  pushed? (value : Value) : Option Activation := do
    return { activation with stack := ← activation.stack.push? value }

theorem begin_of_moved? {activation after : Activation} {row : Method} {instruction : Instruction}
    {machine : Machine} (moves : activation.moved? row instruction = some after)
    (known : machine.heap.methods.get activation.method = row) (offset : Nat) :
    activation.begin offset instruction machine = .ok (.done .next after) machine := by
  have pushes {found : Option Value} {read : Engine Value}
      (same : ∀ value, found = some value → read machine = .ok value machine)
      (moves : (found >>= moved?.pushed? activation) = some after) :
      (do return (Flow.next, ← activation.push (← read)) : Engine (Flow × Activation)) machine =
        .ok (.next, after) machine := by
    obtain ⟨value, held, moves⟩ := Option.bind_eq_some_iff.mp moves
    obtain ⟨stack, pushed, rest⟩ := Option.bind_eq_some_iff.mp moves
    cases rest
    rw [Engine.bind_of_ok (same value held), push, pushed]
    rfl
  have constant (value : Value) (moves : moved?.pushed? activation value = some after) :
      (some value >>= moved?.pushed? activation) = some after := moves
  cases instruction <;> try cases moves
  case dup =>
    exact begin_of_execute rfl (pushes (fun _ found => peek_of_found machine found) moves)
  case dupSecond =>
    exact begin_of_execute rfl (pushes (fun _ found => peek_of_found machine found) moves)
  case pushFrame slot =>
    refine begin_of_execute rfl (pushes (fun value found => ?_) moves)
    show Engine.orFault activation.frame.slots[slot.toNat]? machine = _
    rw [found]
    rfl
  case pushConstant literal =>
    refine begin_of_execute rfl (pushes (fun value found => ?_) moves)
    have read : activation.literal? literal machine = .ok (some value) machine := by
      show EStateM.Result.ok ((machine.heap.methods.get activation.method).literal? literal) _ = _
      rw [known, found]
    exact Engine.bind_of_ok read
  case pushZero | pushOne =>
    exact begin_of_execute rfl (pushes (fun _ found => by cases found; rfl) (constant _ moves))
  case pop =>
    obtain ⟨⟨value, stack⟩, popped, same⟩ := Option.bind_eq_some_iff.mp moves
    cases same
    exact begin_of_execute rfl (Engine.bind_of_ok (pop_of_some popped))
  case popFrame slot =>
    obtain ⟨⟨value, stack⟩, popped, stores⟩ := Option.bind_eq_some_iff.mp moves
    dsimp only at stores
    split at stores
    · rename_i within
      cases stores
      have stored : activation.frame.store value (.ownFrame slot) machine =
          .ok { activation.frame with
            slots := activation.frame.slots.setIfInBounds slot.toNat value } machine := by
        show Frame.set activation.frame slot.toNat value machine = _
        rw [Frame.set, if_pos within]
        rfl
      rw [show Instruction.popFrame slot = VariableAccess.pop (.ownFrame slot) from rfl, begin_pop,
        Engine.bind_of_ok (pop_of_some popped), Engine.bind_of_ok stored]
      rfl
    · cases stores

theorem not_send_of_moved? {activation after : Activation} {row : Method}
    {instruction : Instruction} (moves : activation.moved? row instruction = some after)
    (literal : UInt8) (arity : Arity) : instruction ≠ .send literal arity := by
  rintro rfl
  cases moves

theorem method_of_moved? {activation after : Activation} {row : Method}
    {instruction : Instruction} (moves : activation.moved? row instruction = some after) :
    after.method = activation.method := by
  have pushes {value : Value} (moves : moved?.pushed? activation value = some after) :
      after.method = activation.method := by
    obtain ⟨stack, -, same⟩ := Option.bind_eq_some_iff.mp moves
    cases same
    rfl
  cases instruction <;> try cases moves
  case dup | dupSecond | pushFrame | pushConstant =>
    obtain ⟨value, -, moves⟩ := Option.bind_eq_some_iff.mp moves
    exact pushes moves
  case pushZero | pushOne => exact pushes moves
  case pop =>
    obtain ⟨popped, -, same⟩ := Option.bind_eq_some_iff.mp moves
    cases same
    rfl
  case popFrame slot =>
    obtain ⟨popped, -, stores⟩ := Option.bind_eq_some_iff.mp moves
    dsimp only at stores
    split at stores <;> cases stores
    rfl

/-- What instructions do one after the other that only move values, an access being what its
scope makes of it. -/
def movedOn? (activation : Activation) (row : Method) : List Instruction → Option Activation
  | [] => some activation
  | instruction :: rest => do
    let next ← activation.moved? row
      ((resolvedAccess? row.scope instruction).getD instruction)
    next.movedOn? row rest

end Activation

namespace Passage

variable {stage : Stage} {objects : Heap → Prop} {depth : Nat} {live : Live}
  {waiting : List Waiting}

/-- One instruction that only moves values. -/
theorem moves {instruction : Instruction} {length : Nat} {next : Activation} {row : Method}
    (known : stage.methodAt live.activation.method = row)
    (decoded : decodeAt row.code live.offset = .ok (instruction, length))
    (moved : live.activation.moved? row
      ((Activation.resolvedAccess? row.scope instruction).getD instruction) = some next) :
    Passage (stage.At objects depth) ⟨.turn .plain live, waiting⟩ (stage.At objects depth)
      ⟨.turn .plain { live with activation := next, offset := live.offset + length }, waiting⟩ := by
  subst known
  -- Whatever stands there only moves values.
  have moves {standing : Instruction}
      (moves : live.activation.moved? (stage.methodAt live.activation.method) standing =
        some next) (machine : Machine) (here : stage.At objects depth machine) :
      ∃ later, stage.At objects depth later ∧
        live.activation.begin live.offset standing machine = .ok (.done .next next) later :=
    ⟨machine, here, Activation.begin_of_moved? moves (here.methods _) live.offset⟩
  cases accesses : instruction.access? with
  | some access =>
    cases resolved : Activation.resolvedAccess?
      (stage.methodAt live.activation.method).scope instruction with
    | some resolution =>
      rw [resolved] at moved
      have stands : stage.code.resolution? live.activation.method instruction =
          some resolution := (Code.resolution?_of_access accesses).trans resolved
      exact ofAccess decoded accesses stands (Activation.not_send_of_moved? moved) (moves moved)
    | none =>
      rw [resolved] at moved
      cases instruction <;> cases accesses <;> cases moved
  | none =>
    have unresolved : Activation.resolvedAccess?
        (stage.methodAt live.activation.method).scope instruction = none := by
      cases instruction <;> cases accesses <;> rfl
    rw [unresolved] at moved
    have fixed : stage.code.resolution? live.activation.method instruction = none := by
      cases instruction <;> first | rfl | cases moved
    have onward : Flow.next.target? (live.offset + length) = some (live.offset + length) := rfl
    exact ofDone decoded fixed (Activation.not_send_of_moved? moved) onward (moves moved)

/-- Straight code leads where its instructions lead one after the other. -/
theorem straight (instructions : List Instruction) {activation : Activation} {target : Nat}
    {row : Method} {next : Live} (known : stage.methodAt live.activation.method = row)
    (spelled : spelled? row.code live.offset instructions = some target)
    (moved : live.activation.movedOn? row instructions = some activation)
    (arrives : { live with activation, offset := target } = next) :
    Passage (stage.At objects depth) ⟨.turn .plain live, waiting⟩ (stage.At objects depth)
      ⟨.turn .plain next, waiting⟩ := by
  subst arrives
  induction instructions generalizing live with
  | nil =>
    cases spelled
    cases moved
    exact here
  | cons instruction rest inductionHypothesis =>
    obtain ⟨between, first, moved⟩ := Option.bind_eq_some_iff.mp moved
    obtain ⟨length, decoded, spelled⟩ := spelled?_cons spelled
    have method : between.method = live.activation.method := Activation.method_of_moved? first
    rw [← method] at known
    exact (moves (method ▸ known) decoded first).trans (inductionHypothesis known spelled moved)

/-- A jump leads to its target. -/
theorem jumped {instruction : Instruction} {length target : Nat} {row : Method} {next : Live}
    (known : stage.methodAt live.activation.method = row)
    (decoded : decodeAt row.code live.offset = .ok (instruction, length))
    (jumps : (∃ distance, instruction = .jump distance) ∨
      ∃ distance, instruction = .jumpBackward distance)
    (goes : instruction.jumpTarget? live.offset = some target)
    (arrives : { live with offset := target } = next) :
    Passage (stage.At objects depth) ⟨.turn .plain live, waiting⟩ (stage.At objects depth)
      ⟨.turn .plain next, waiting⟩ := by
  subst known arrives
  rcases jumps with ⟨distance, rfl⟩ | ⟨distance, rfl⟩
  · have onward : (Flow.jump target).target? (live.offset + length) = some target := rfl
    exact ofDone decoded rfl (fun _ _ same => by cases same) onward fun machine here =>
      ⟨machine, here, Activation.begin_of_execute rfl
        (Engine.bind_of_ok (Activation.jumpTarget_of_some goes machine))⟩
  · have onward : (Flow.backEdge target).target? (live.offset + length) = some target := rfl
    exact ofDone decoded rfl (fun _ _ same => by cases same) onward fun machine here =>
      ⟨machine, here, Activation.begin_of_execute rfl
        (Engine.bind_of_ok (Activation.jumpTarget_of_some goes machine))⟩

end Passage

/-! ### Calls -/

/-- A send to a current receiver calls what the cache of the site gives for it. -/
theorem Activation.sendAttempt_through_cache {activation next : Activation} {offset count : Nat}
    {literal : UInt8} {arity : Arity} {selector : Symbol} {receiver : Value} {target : Invokable}
    {made : Call} {machine : Machine}
    (named : machine.heap.code.literal? activation.method literal = some (.symbol selector))
    (fixed : arity.fixed? = some count)
    (held : activation.stack.peek? (count - 1) = some receiver)
    (current : machine.heap.isStaleValue receiver = false)
    (found : (machine.heap.lookupCached (machine.heap.classOf receiver)
      (machine.heap.shapeFor receiver (machine.heap.classOf receiver)) selector
      (machine.heap.site activation.method offset).cache).1 = some target)
    (taken : ∀ machine, activation.takeCall target count machine = .ok (made, next) machine) :
    activation.sendAttempt offset literal arity machine = .ok (.call made next .push)
      ((machine.change (.receive activation.method offset (machine.heap.classOf receiver))).change
        (.lookup activation.method offset (machine.heap.classOf receiver)
          (machine.heap.shapeFor receiver (machine.heap.classOf receiver)) selector)) := by
  rw [sendAttempt, Engine.bind_of_ok (selector_of_named named),
    Engine.bind_of_ok (valueCount_of_fixed selector fixed),
    Engine.bind_of_ok (peek_of_found machine held)]
  show (if machine.heap.isStaleValue receiver = true then _ else _ : Engine Attempt) machine = _
  rw [current, if_neg Bool.false_ne_true]
  show (do
    let shape ← Engine.heapValue (·.shapeFor receiver (machine.heap.classOf receiver))
    let found ← activation.lookupAtSite offset (machine.heap.classOf receiver) shape selector
    activation.foundCall found (machine.heap.classOf receiver) selector count)
      (machine.change (.receive activation.method offset (machine.heap.classOf receiver))) = _
  -- Recording a class is no change to an object, so the shape can be read before it.
  have shaped : Engine.heapValue (·.shapeFor receiver (machine.heap.classOf receiver))
      (machine.change (.receive activation.method offset (machine.heap.classOf receiver))) =
        .ok (machine.heap.shapeFor receiver (machine.heap.classOf receiver))
          (machine.change (.receive activation.method offset (machine.heap.classOf receiver))) := by
    cases receiver <;> rfl
  rw [Engine.bind_of_ok shaped]
  generalize machine.heap.classOf receiver = cls at found ⊢
  generalize machine.heap.shapeFor receiver cls = shape at found ⊢
  have looked : activation.lookupAtSite offset cls shape selector
      (machine.change (.receive activation.method offset cls)) = .ok (some target)
        ((machine.change (.receive activation.method offset cls)).change
          (.lookup activation.method offset cls shape selector)) := by
    show EStateM.Result.ok
      ((machine.change (.receive activation.method offset cls)).heap.lookupCached cls shape selector
        ((machine.change (.receive activation.method offset cls)).heap.site
          activation.method offset).cache).1 _ = _
    rw [machine.lookupCached_receive, found]
    rfl
  rw [Engine.bind_of_ok looked, foundCall, Engine.bind_of_ok (taken _)]
  rfl

namespace Passage

variable {stage : Stage} {objects : Heap → Prop} {depth : Nat} {live : Live}
  {waiting : List Waiting}

theorem sends {length count : Nat} {literal : UInt8} {arity : Arity} {selector : Symbol}
    {receiver : Value} {cls : ClassId} {target : Invokable} {made : Call} {next : Activation}
    (encoded : stage.code.encoded live.activation.method live.offset =
      .ok (.send literal arity, length))
    (named : stage.code.literal? live.activation.method literal = some (.symbol selector))
    (fixed : arity.fixed? = some count)
    (held : live.activation.stack.peek? (count - 1) = some receiver)
    (received : ∀ machine, stage.At objects depth machine →
      machine.heap.isStaleValue receiver = false ∧ machine.heap.classOf receiver = cls)
    (has : stage.ledger.heap.classes.Has cls)
    (found : stage.ledger.heap.lookup? cls selector = some target)
    (taken : ∀ machine, live.activation.takeCall target count machine = .ok (made, next) machine) :
    Passage (stage.At objects depth) ⟨.turn .plain live, waiting⟩ (stage.At objects depth)
      ⟨.call made, .activation .plain { live with activation := next } (live.offset + length)
        .push :: waiting⟩ := by
  refine .ofStep fun machine here => ?_
  obtain ⟨current, rfl⟩ := received machine here
  have encodedHere := encoded
  have namedHere := named
  rw [← here.code] at encodedHere namedHere
  obtain ⟨⟨_, _⟩, fetched, rfl, rfl | resolved⟩ :=
    Leg.fetch_of_encoded .plain here.coherent encodedHere
  · have sends := (Code.Stands.encoded encodedHere).sends_of_send namedHere
    have lays := Heap.lays_shapeFor current
    obtain ⟨existing, same⟩ := here.lookup? has selector
    have begun := Activation.sendAttempt_through_cache namedHere fixed held current
      ((here.lookupCached sends lays existing).trans (same.trans found)) taken
    have received : stage.At objects depth (machine.change (.receive live.activation.method
        live.offset (machine.heap.classOf receiver))) :=
      here.changed ⟨_, _, _, _, encodedHere, namedHere⟩ here.objects
    have searched : stage.At objects depth ((machine.change (.receive live.activation.method
        live.offset (machine.heap.classOf receiver))).change (.lookup live.activation.method
          live.offset (machine.heap.classOf receiver)
          (machine.heap.shapeFor receiver (machine.heap.classOf receiver)) selector)) :=
      received.changed ⟨sends, lays⟩ here.objects
    refine ⟨_, searched, ?_⟩
    exact State.step_of_call fetched begun
  · cases resolved

/-- The answer of a call is pushed where the activation goes on. -/
theorem resumes {before : Machine → Prop} {value : Value} {stack : OperandStack} {target : Nat}
    {next : Live} (pushed : live.activation.stack.push? value = some stack)
    (arrives : { live with
      activation := { live.activation with stack }, offset := target } = next) :
    Passage before ⟨.answer value, .activation .plain live target .push :: waiting⟩ before
      ⟨.turn .plain next, waiting⟩ := by
  subst arrives
  refine .ofStep fun machine here => ⟨machine, here, ?_⟩
  have resumed : Leg.plain.resume live.activation live.offset target .push value machine =
      .ok (.on { live.activation with stack } target) machine := by
    rw [Leg.resume, Reply.finish, bind_assoc,
      Engine.bind_of_ok (Activation.push_of_some pushed)]
    rfl
  show some (State.after (Leg.plain.resume _ _ _ _ _) machine _ _) = _
  rw [State.after, resumed]
  rfl

/-- An operation that does nothing after a call passes its answer on. -/
theorem passes {before : Machine → Prop} (value : Value) :
    Passage before ⟨.answer value, .operation .pass :: waiting⟩ before ⟨.answer value, waiting⟩ :=
  .ofStep fun machine here => ⟨machine, here, rfl⟩

/-! ### Operations -/

section

variable {others : Heap → Prop} {primitive : PrimitiveId} {operation : Operation}
  {receiver : Value} {arguments : Arguments}
  (known : OperationEntry.table[(stage.ledger.heap.primitives.get primitive).index]? =
    some operation)

include known

theorem start_of_known {machine : Machine} (here : stage.At objects depth machine) :
    Operation.start primitive receiver arguments machine =
      operation.begin receiver arguments.toList machine := by
  have read : Engine.heapValue (fun heap => (heap.primitives.get primitive).index) machine =
      .ok (stage.ledger.heap.primitives.get primitive).index machine := by
    rw [← here.primitives]
    rfl
  rw [Operation.start, Engine.bind_of_ok read, known]

theorem operates {value : Value}
    (answers : ∀ machine, stage.At objects depth machine →
      operation.begin receiver arguments.toList machine = .ok (.answer value) machine) :
    Passage (stage.At objects depth) ⟨.call ⟨.primitive primitive, receiver, arguments⟩, waiting⟩
      (stage.At objects depth) ⟨.answer value, waiting⟩ := by
  refine .ofStep fun machine here => ⟨machine, here, ?_⟩
  show some (State.after (Operation.start primitive receiver arguments) machine _ _) = _
  rw [State.after, start_of_known known here, answers machine here]
  rfl

theorem operatesOn {made : Call} {pending : Pending}
    (calls : ∀ machine, stage.At objects depth machine →
      operation.begin receiver arguments.toList machine = .ok (.call made pending) machine) :
    Passage (stage.At objects depth) ⟨.call ⟨.primitive primitive, receiver, arguments⟩, waiting⟩
      (stage.At objects depth) ⟨.call made, .operation pending :: waiting⟩ := by
  refine .ofStep fun machine here => ⟨machine, here, ?_⟩
  show some (State.after (Operation.start primitive receiver arguments) machine _ _) = _
  rw [State.after, start_of_known known here, calls machine here]
  rfl

end

/-! ### Activations -/

section

variable {others : Heap → Prop} {method : MethodId} {row : Method} {receiver : Value}
  {arguments : Arguments} {frame : Frame} (known : stage.methodAt method = row)
  (created : ∀ machine, stage.At objects depth machine → ∃ later,
    stage.At others depth later ∧
      Frame.create row receiver arguments.settled machine = .ok frame later)

include known created

theorem start_of_created {machine : Machine} (here : stage.At objects depth machine) :
    ∃ between, stage.At others depth between ∧
      Live.start method receiver arguments machine =
        if depth < stage.maxDepth then
          .ok (.sequential, row.entry method frame)
            (Machine.change { between with depth := depth + 1 } (.countInvocation method))
        else .error (.error (.stackOverflow (depth + 1))) between := by
  subst known
  obtain ⟨between, there, frames⟩ := created machine here
  refine ⟨between, there, ?_⟩
  have read : Engine.heapValue (·.methods.get method) machine =
      .ok (stage.methodAt method) machine := by
    rw [← here.methods]
    rfl
  rw [Live.start, Engine.bind_of_ok read, Engine.bind_of_ok frames]
  by_cases room : depth < stage.maxDepth
  · have entered : Engine.enter between = .ok () { between with depth := depth + 1 } := by
      show (if between.config.maxDepth < between.depth + 1 then _ else _ : Engine Unit) between = _
      rw [there.depth, there.maxDepth, if_neg (by omega)]
      rfl
    have counted : between.heap.methods.get method = stage.methodAt method := there.methods method
    rw [if_pos room, Engine.bind_of_ok entered, ← counted]
    show EStateM.Result.ok (if between.config.mode == .tracing then _ else _, _) _ = _
    rw [there.tracing]
    rfl
  · have refused : Engine.enter between = .error (.error (.stackOverflow (depth + 1))) between := by
      show (if between.config.maxDepth < between.depth + 1 then _ else _ : Engine Unit) between = _
      rw [there.depth, there.maxDepth, if_pos (by omega)]
      rfl
    rw [if_neg room, Engine.bind_of_error refused]

/-- A method is called as long as the limit allows one more activation. -/
theorem calls {next : Live} (room : depth < stage.maxDepth)
    (arrives : row.entry method frame = next) :
    Passage (stage.At objects depth) ⟨.call ⟨.method method, receiver, arguments⟩, waiting⟩
      (stage.At others (depth + 1)) ⟨.turn .plain next, waiting⟩ := by
  subst arrives
  have starts : Passage (stage.At objects depth)
      ⟨.call ⟨.method method, receiver, arguments⟩, waiting⟩ (stage.At others (depth + 1))
      ⟨.enter .sequential (row.entry method frame), waiting⟩ := by
    refine ofStep fun machine here => ?_
    obtain ⟨between, there, starts⟩ := start_of_created known created here
    refine ⟨_, (there.moved (depth + 1)).changed
      (show Change.Allowed _ (.countInvocation method) from trivial) there.objects, ?_⟩
    show some (State.after (Live.start method receiver arguments) machine _ _) = _
    rw [State.after, starts, if_pos room]
    rfl
  refine starts.trans (ofStep fun machine here => ⟨machine, here, ?_⟩)
  show some (⟨machine, .turn (.sequential (machine.config.mode == .hybrid)) _, _⟩ : State) = _
  rw [here.tracing]
  rfl

/-- At the limit a call fails. -/
theorem overflows (full : stage.maxDepth ≤ depth) :
    Passage (stage.At objects depth) ⟨.call ⟨.method method, receiver, arguments⟩, waiting⟩
      (stage.At others depth) ⟨.fail (.error (.stackOverflow (depth + 1))), waiting⟩ := by
  refine ofStep fun machine here => ?_
  obtain ⟨between, there, starts⟩ := start_of_created known created here
  refine ⟨between, there, ?_⟩
  show some (State.after (Live.start method receiver arguments) machine _ _) = _
  rw [State.after, starts, if_neg (by omega)]
  rfl

end

section

variable {others : Heap → Prop} {length : Nat} {value : Value} {stack : OperandStack}
  (closes : ∀ heap, objects heap → others (heap.finishContext live.context))

include closes

theorem at_leave {machine : Machine} (here : stage.At objects (depth + 1) machine) :
    stage.At others depth (Engine.leave live.context machine) := by
  have finished : stage.At others (depth + 1)
      (machine.change (.finishContext live.context)) := by
    refine here.changed trivial ?_
    have same : (machine.heap.finishContext live.context).unlearned =
        machine.heap.unlearned.finishContext live.context := by
      cases live.context <;> rfl
    show others (machine.heap.finishContext live.context).unlearned
    rw [same]
    exact closes _ here.objects
  have shallow : machine.depth - 1 = depth := by
    rw [here.depth]
    rfl
  have moved := finished.moved (machine.depth - 1)
  rw [shallow] at moved
  rw [Engine.leave, shallow]
  exact moved

/-- A local return ends the activation with what is on top of its stack. -/
theorem returns {row : Method} (known : stage.methodAt live.activation.method = row)
    (decoded : decodeAt row.code live.offset = .ok (.returnLocal, length))
    (popped : live.activation.stack.pop? = some (value, stack)) :
    Passage (stage.At objects (depth + 1)) ⟨.turn .plain live, waiting⟩
      (stage.At others depth) ⟨.answer value, waiting⟩ := by
  refine ofStep fun machine here => ⟨Engine.leave live.context machine, at_leave closes here, ?_⟩
  have encoded : machine.heap.code.encoded live.activation.method live.offset =
      .ok (.returnLocal, length) := by
    subst known
    rw [here.code]
    exact decoded
  obtain ⟨⟨_, _⟩, fetched, rfl, rfl | resolved⟩ :=
    Leg.fetch_of_encoded .plain here.coherent encoded
  · have begun : live.activation.begin live.offset .returnLocal machine =
        .ok (.done (.answer value) { live.activation with stack }) machine :=
      Activation.begin_of_execute rfl (Engine.bind_of_ok (Activation.pop_of_some popped))
    have turned := Leg.advance_of_done fetched (fun _ _ same => by cases same) begun
    have turns : (Point.on ⟨.turn .plain live, waiting⟩ machine).focus = .turn .plain live := rfl
    exact State.step_of_ok turns turned
  · cases resolved

/-- An error ends the activation that waits for an answer. -/
theorem unwinds {leg : Leg} {next : Nat} {reply : Reply} (cause : RuntimeError) :
    Passage (stage.At objects (depth + 1))
      ⟨.fail (.error cause), .activation leg live next reply :: waiting⟩
      (stage.At others depth) ⟨.fail (.error cause), waiting⟩ :=
  ofStep fun machine here => ⟨Engine.leave live.context machine, at_leave closes here, rfl⟩

end

end Passage

end ObjectMachine
