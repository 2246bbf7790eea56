/-
This file proves that a program cannot tell in which mode it runs. Every mode is compared
with the sequential mode, where running is plain decoding: what a run in any mode comes
to, the sequential one comes to with enough fuel, and the other way round. So for two
configurations with the same depth limit the endings of a session agree one by one,
running for ever included, and the machines left behind look the same.
-/

import ObjectMachine.Proofs.Tracing

namespace ObjectMachine

/-! ### The sequential mode -/

namespace Activation

theorem sequentialTurn_plain (call : Caller) (activation : Activation) (offset : Nat) :
    activation.sequentialTurn call false offset =
      activation.plainTurn call
        (fun after next flow => return after.followSequential offset next flow) offset :=
  rfl

/-- Without another loop to go to, the sequential loop is plain decoding. -/
theorem loop_eq_decode (call : Caller)
    (legs : Tier → Activation → Nat → Engine (Exit × Activation)) (more fuel : Nat)
    (activation : Activation) (offset : Nat) :
    loop (sequentialTurn call false) fuel activation offset >>= arrive legs more =
      decode call fuel activation offset := by
  induction fuel generalizing activation offset with
  | zero => rfl
  | succ fuel inductionHypothesis =>
    rw [loop_succ, sequentialTurn_plain, plainTurn, decode, bind_assoc]
    congr 1
    funext found
    obtain ⟨instruction, length⟩ := found
    dsimp only
    rw [bind_assoc]
    congr 1
    funext result
    obtain ⟨flow, after⟩ := result
    dsimp only
    rw [pure_bind]
    cases flow with
    | next => exact inductionHypothesis after (offset + length)
    | jump target | backEdge target => exact inductionHypothesis after target
    | retry => exact inductionHypothesis after offset
    | answer value => rfl

/-- In the sequential mode, running is plain decoding. -/
theorem run_of_tracing {machine : Machine} (tracing : machine.config.mode = .tracing)
    (call : Caller) (fuel more : Nat) (activation : Activation) :
    activation.run (runIn call fuel) (more + 1) machine =
      activation.decode call fuel 0 machine := by
  rw [← loop_eq_decode call (runIn call fuel) more fuel activation 0]
  show drive (runIn call fuel) (more + 1)
    (if machine.config.mode == .tracing then Tier.sequential else Tier.threaded) activation 0
      machine = _
  rw [tracing]
  show (loop (sequentialTurn call (machine.config.mode == .hybrid)) fuel activation 0 >>=
    arrive (runIn call fuel) more) machine = _
  rw [tracing]
  rfl

end Activation

/-! ### Two configurations -/

/-- Every method of the machine has been made by completing a draft. -/
def Heap.Drafted (heap : Heap) : Prop :=
  ∀ method, heap.methods.Has method → ∃ draft symbols, heap.code.Completed method draft symbols

theorem Heap.Drafted.of_code {before after : Heap} (drafted : before.Drafted)
    (same : after.code = before.code) : after.Drafted := by
  have methods : after.methods = before.methods := congrArg Code.methods same
  intro method has
  rw [methods] at has
  rw [same]
  exact drafted method has

/-- New symbols leave a draft completed. -/
theorem Heap.Drafted.intern {heap : Heap} (drafted : heap.Drafted) (text : String) :
    (heap.intern text).2.Drafted := by
  intro method has
  obtain ⟨draft, symbols, completed⟩ := drafted method has
  exact ⟨draft, symbols, completed.finished, completed.knows,
    completed.grows.trans (heap.symbols.grows_intern text)⟩

/-- Machines that look the same, each with a configuration of its own. -/
def Simulation.configured (code : Code) (first second : TierConfig) : Simulation where
  code := code
  related x y := x.Alike code y ∧ x.config = first ∧ y.config = second
  alike related := related.1
  change := fun ⟨alike, same⟩ allowed => ⟨alike.change allowed, same⟩
  depth := fun ⟨alike, same⟩ => ⟨alike.setDepth _, same⟩
  tolerates _ := True
  lenient _ := trivial
  patient := True

/-- Where all methods come from drafts, threaded code can always be made. -/
theorem Heap.Drafted.compiles {heap : Heap} (drafted : heap.Drafted) (coherent : heap.Coherent)
    (method : MethodId) (pool : ContinuationPool) :
    ∃ after program, ThreadedProgram.compile (heap.instructionAt method)
      (heap.methods.get method).code.size pool = (after, .ok program) := by
  by_cases has : heap.methods.Has method
  · obtain ⟨draft, symbols, completed⟩ := drafted method has
    obtain ⟨depths, -, accepts⟩ := completed.accepts
    exact coherent.compiles accepts pool
  · refine ThreadedProgram.compile_ok (fun _ => False) (fun nonempty => nonempty ?_)
      fun _ reached => reached.elim
    rw [Table.get_of_not_has _ _ has]
    rfl

theorem Simulation.loose_configured {heap : Heap} (drafted : heap.Drafted)
    (first second : TierConfig) : (configured heap.code first second).Loose where
  tolerates _ := trivial
  patient := trivial
  first := fun ⟨alike, same, sameSecond⟩ hides =>
    ⟨⟨hides.observed.trans alike.observed, hides.code.trans alike.code, hides.coherent,
      alike.coherentSecond⟩, hides.config.trans same, sameSecond⟩
  second := fun ⟨alike, same, sameSecond⟩ hides =>
    ⟨⟨alike.observed.trans hides.observed.symm, alike.code, alike.coherent, hides.coherent⟩,
      same, hides.config.trans sameSecond⟩
  compiles _ sameCode coherent := (drafted.of_code sameCode).compiles coherent

section

variable {heap : Heap} (drafted : heap.Drafted) {first second : TierConfig}

include drafted

/-- The sequential mode comes to what any mode comes to. -/
theorem calls_tracing_second (tracing : second.mode = .tracing) {fuel more : Nat}
    (enough : fuel * fuel + 1 ≤ more) :
    (Simulation.configured heap.code first second).Calls (Engine.invoke fuel)
      (Engine.invoke more) := by
  induction fuel generalizing more with
  | zero => exact fun _ _ _ x y related => .fuel trivial
  | succ fuel inductionHypothesis =>
    have square : (fuel + 1) * (fuel + 1) = fuel * fuel + 2 * fuel + 1 := by
      rw [Nat.add_mul, Nat.mul_add]
      omega
    obtain ⟨more, rfl⟩ : ∃ rest, more = rest + 2 := ⟨more - 2, by omega⟩
    have calls := @inductionHypothesis (more + 1) (by omega)
    refine Simulation.calls_invokeWith (fun activation _ => ?_) (fun _ => .inr trivial) calls
      (.inr ⟨trivial, by omega⟩)
    intro x y related
    rw [Activation.run_of_tracing (related.2.2 ▸ tracing)]
    exact Simulation.matches_drive_decode (Simulation.loose_configured drafted first second)
      calls fuel (by omega) _ activation 0 x y related

/-- Any mode comes to what the sequential mode comes to. -/
theorem calls_tracing_first (tracing : first.mode = .tracing) {fuel more : Nat}
    (enough : 2 * fuel + 2 ≤ more) :
    (Simulation.configured heap.code first second).Calls (Engine.invoke fuel)
      (Engine.invoke more) := by
  induction fuel generalizing more with
  | zero => exact fun _ _ _ x y related => .fuel trivial
  | succ fuel inductionHypothesis =>
    obtain ⟨more, rfl⟩ : ∃ rest, more = rest + 1 := ⟨more - 1, by omega⟩
    have calls := @inductionHypothesis more (by omega)
    refine Simulation.calls_invokeWith (fun activation _ => ?_) (fun _ => .inr trivial) calls
      (.inr ⟨trivial, by omega⟩)
    have loose := Simulation.loose_configured drafted first second
    intro x y related
    cases fuel with
    | zero => exact .fuel trivial
    | succ fuel =>
      rw [Activation.run_of_tracing (related.2.1 ▸ tracing)]
      exact (Simulation.pursued loose calls more (fuel + 1) (by omega)).drive loose (by omega)
        (by omega) _ activation 0 x y related

end

/-! ### Requests -/

/-- A message that is sent from outside the running code. -/
structure Request where
  receiver : Value
  selector : String
  arguments : List Value

namespace Request

def send (request : Request) (fuel : Nat) : Engine Value :=
  Engine.send fuel request.receiver request.selector request.arguments

end Request

/-- A result for want of fuel. -/
def Unfinished (result : EStateM.Result Abrupt Machine Value) : Prop :=
  ∃ after, result = .error .outOfFuel after

/-- How a request can end: with a value, without one, or not at all. -/
inductive Ending
  | value (answer : Value)
  | failure (abrupt : Abrupt)
  | hangs

/-- The result of a run with this ending. -/
def Ending.result (ending : Ending) (after : Machine) : EStateM.Result Abrupt Machine Value :=
  match ending with
  | .value answer => .ok answer after
  | .failure abrupt => .error abrupt after
  | .hangs => .error .outOfFuel after

/-- How a request on a machine ends and what machine it leaves, however much fuel that takes. -/
inductive Request.Ends (request : Request) (before : Machine) : Ending → Machine → Prop
  | finished {fuel : Nat} {ending : Ending} {after : Machine}
    (ran : request.send fuel before = ending.result after)
    (finished : ¬Unfinished (ending.result after)) : Ends request before ending after
  | hangs (forever : ∀ fuel, Unfinished (request.send fuel before)) :
    Ends request before .hangs before

/-- A sequence of requests, one after the other until one of them hangs. -/
inductive Session : Machine → List Request → List Ending → Machine → Prop
  | done (machine : Machine) : Session machine [] [] machine
  | next {before after last : Machine} {request : Request} {requests : List Request}
    {ending : Ending} {endings : List Ending} (ends : request.Ends before ending after)
    (finite : ending ≠ .hangs) (rest : Session after requests endings last) :
    Session before (request :: requests) (ending :: endings) last
  | hung {before after : Machine} {request : Request} {requests : List Request}
    (ends : request.Ends before .hangs after) :
    Session before (request :: requests) [.hangs] after

/-- Every request ends in one of these ways, so every sequence of them has a session. -/
theorem exists_session (machine : Machine) (requests : List Request) :
    ∃ endings last, Session machine requests endings last := by
  induction requests generalizing machine with
  | nil => exact ⟨[], machine, .done machine⟩
  | cons request requests inductionHypothesis =>
    by_cases forever : ∀ fuel, Unfinished (request.send fuel machine)
    · exact ⟨[.hangs], machine, .hung (.hangs forever)⟩
    · obtain ⟨fuel, finished⟩ := Classical.not_forall.mp forever
      cases ran : request.send fuel machine with
      | ok value after =>
        obtain ⟨endings, last, rest⟩ := inductionHypothesis after
        rw [ran] at finished
        have ends : request.Ends machine (.value value) after := .finished ran finished
        exact ⟨_, last, .next ends (fun same => by cases same) rest⟩
      | error abrupt after =>
        obtain ⟨endings, last, rest⟩ := inductionHypothesis after
        rw [ran] at finished
        have ends : request.Ends machine (.failure abrupt) after := .finished ran finished
        exact ⟨_, last, .next ends (fun same => by cases same) rest⟩

/-! ### Twins -/

/-- Machines ready to run the same drafted code that look the same. -/
structure Machine.Twins (first second : Machine) : Prop where
  observed : first.observed = second.observed
  ready : first.heap.Ready
  readySecond : second.heap.Ready
  drafted : first.heap.Drafted

namespace Machine.Twins

variable {first second third : Machine}

theorem code (twins : first.Twins second) : first.heap.code = second.heap.code :=
  (congrArg (fun machine : Machine => machine.heap.code) twins.observed :)

theorem symm (twins : first.Twins second) : second.Twins first where
  observed := twins.observed.symm
  ready := twins.readySecond
  readySecond := twins.ready
  drafted := twins.drafted.of_code twins.code.symm

theorem trans (left : first.Twins second) (right : second.Twins third) : first.Twins third :=
  ⟨left.observed.trans right.observed, left.ready, right.readySecond, left.drafted⟩

/-- Twins take a new name for the same symbol and stay twins. -/
theorem intern (twins : first.Twins second) (text : String) :
    (second.heap.intern text).1 = (first.heap.intern text).1 ∧
      ({ first with heap := (first.heap.intern text).2 } : Machine).Twins
        { second with heap := (second.heap.intern text).2 } := by
  refine ⟨?_, ?_, ?_, ?_, twins.drafted.intern text⟩
  · exact (congrArg (fun machine : Machine => (machine.heap.intern text).1) twins.observed.symm :)
  · exact (congrArg (fun machine : Machine => { machine with heap := (machine.heap.intern text).2 })
      twins.observed :)
  · exact (Machine.Hosted.intern text).ready twins.ready
  · exact (Machine.Hosted.intern text).ready twins.readySecond

end Machine.Twins

/-- The same machine in sequential mode. -/
def Machine.tracing (machine : Machine) : Machine :=
  { machine with config := { machine.config with mode := .tracing } }

theorem Machine.Twins.tracing {first second : Machine} (twins : first.Twins second) :
    first.Twins first.tracing ∧ first.tracing.Twins second :=
  ⟨⟨rfl, twins.ready, twins.ready, twins.drafted⟩, twins.observed, twins.ready,
    twins.readySecond, twins.drafted⟩

/-- Two results, neither for want of fuel, that look the same. -/
inductive Agrees : EStateM.Result Abrupt Machine Value → EStateM.Result Abrupt Machine Value → Prop
  | ok {value : Value} {first second : Machine} (twins : first.Twins second) :
    Agrees (.ok value first) (.ok value second)
  | error {abrupt : Abrupt} {first second : Machine} (twins : first.Twins second)
    (real : abrupt ≠ .outOfFuel) : Agrees (.error abrupt first) (.error abrupt second)

namespace Agrees

variable {first second third : EStateM.Result Abrupt Machine Value}

theorem symm (agrees : Agrees first second) : Agrees second first := by
  cases agrees with
  | ok twins => exact .ok twins.symm
  | error twins real => exact .error twins.symm real

theorem trans (left : Agrees first second) (right : Agrees second third) : Agrees first third := by
  cases left with
  | ok twins =>
    cases right with
    | ok next => exact .ok (twins.trans next)
  | error twins real =>
    cases right with
    | error next => exact .error (twins.trans next) real

theorem finished (agrees : Agrees first second) : ¬Unfinished second := by
  rintro ⟨after, rfl⟩
  cases agrees with
  | error _ real => exact real rfl

/-- Agreeing results have one ending. -/
theorem ending {ending other : Ending} {after afterOther : Machine}
    (agrees : Agrees (ending.result after) (other.result afterOther)) :
    other = ending ∧ after.Twins afterOther := by
  have finished := agrees.finished
  have finishedFirst := agrees.symm.finished
  cases ending with
  | value value =>
    cases other with
    | value other =>
      cases agrees with
      | ok twins => exact ⟨rfl, twins⟩
    | failure | hangs => cases agrees
  | failure abrupt =>
    cases other with
    | failure other =>
      cases agrees with
      | error twins => exact ⟨rfl, twins⟩
    | value => cases agrees
    | hangs => exact absurd ⟨_, rfl⟩ finished
  | hangs => exact absurd ⟨_, rfl⟩ finishedFirst

end Agrees

namespace Machine.Twins

variable {first second : Machine} (twins : first.Twins second) (request : Request)
  {fuel more : Nat}

include twins

/-- Where the calls of twins match, so do requests. -/
theorem agrees_of_calls
    (calls : ∀ heap : Heap, heap.Drafted →
      (Simulation.configured heap.code first.config second.config).Calls (Engine.invoke fuel)
        (Engine.invoke more)) :
    Unfinished (request.send fuel first) ∨
      Agrees (request.send fuel first) (request.send more second) := by
  obtain ⟨sameSymbol, started⟩ := twins.intern request.selector
  have joint := Simulation.matches_sendMessage (calls _ started.drafted) request.receiver
    (first.heap.intern request.selector).1 request.arguments _ _
    ⟨⟨started.observed, rfl, started.ready.coherent, started.readySecond.coherent⟩, rfl, rfl⟩
  have left : request.send fuel first = Engine.sendMessage (Engine.invoke fuel) request.receiver
      (first.heap.intern request.selector).1 request.arguments
      { first with heap := (first.heap.intern request.selector).2 } := rfl
  have right : request.send more second = Engine.sendMessage (Engine.invoke more)
      request.receiver (second.heap.intern request.selector).1 request.arguments
      { second with heap := (second.heap.intern request.selector).2 } := rfl
  rw [sameSymbol] at right
  rw [← left, ← right] at joint
  have readies {after afterSecond : Machine}
      (led : (request.send fuel).Leads first after)
      (ledSecond : (request.send more).Leads second afterSecond)
      (alike : after.Alike (first.heap.intern request.selector).2.code afterSecond) :
      after.Twins afterSecond :=
    ⟨alike.observed, twins.ready.sent led, twins.readySecond.sent ledSecond,
      started.drafted.of_code alike.code⟩
  generalize ran : request.send fuel first = result at joint readies ⊢
  generalize ranSecond : request.send more second = resultSecond at joint ⊢
  cases joint with
  | ok related =>
    exact .inr (.ok (readies (.inl ⟨_, ran⟩) (.inl ⟨_, ranSecond⟩) related.1))
  | @error abrupt _ _ related =>
    by_cases short : abrupt = .outOfFuel
    · subst short
      exact .inl ⟨_, rfl⟩
    · exact .inr (.error (readies (.inr ⟨_, ran⟩) (.inr ⟨_, ranSecond⟩) related.1) short)
  | fuel => exact .inl ⟨_, rfl⟩

theorem agrees_tracing_second (tracing : second.config.mode = .tracing)
    (enough : fuel * fuel + 1 ≤ more) :
    Unfinished (request.send fuel first) ∨
      Agrees (request.send fuel first) (request.send more second) :=
  twins.agrees_of_calls request fun _ drafted => calls_tracing_second drafted tracing enough

theorem agrees_tracing_first (tracing : first.config.mode = .tracing)
    (enough : 2 * fuel + 2 ≤ more) :
    Unfinished (request.send fuel first) ∨
      Agrees (request.send fuel first) (request.send more second) :=
  twins.agrees_of_calls request fun _ drafted => calls_tracing_first drafted tracing enough

/-- What ends on one twin ends on the other. -/
theorem exists_agrees (finished : ¬Unfinished (request.send fuel first)) :
    ∃ more, Agrees (request.send fuel first) (request.send more second) := by
  obtain ⟨left, right⟩ := twins.tracing
  have onTracing := (left.agrees_tracing_second request rfl (Nat.le_refl _)).resolve_left finished
  have onSecond := (right.agrees_tracing_first request rfl
    (Nat.le_refl (2 * (fuel * fuel + 1) + 2))).resolve_left onTracing.finished
  exact ⟨_, onTracing.trans onSecond⟩

/-- However the fuel of two requests that end is chosen, they agree. -/
theorem agrees (finished : ¬Unfinished (request.send fuel first))
    (finishedSecond : ¬Unfinished (request.send more second)) :
    Agrees (request.send fuel first) (request.send more second) := by
  obtain ⟨left, right⟩ := twins.tracing
  have onTracing := (left.agrees_tracing_second request rfl
    (Nat.le_max_left (fuel * fuel + 1) (more * more + 1))).resolve_left finished
  have onTracingSecond := (right.symm.agrees_tracing_second request rfl
    (Nat.le_max_right (fuel * fuel + 1) (more * more + 1))).resolve_left finishedSecond
  exact onTracing.trans onTracingSecond.symm

/-- A request on twins ends in the same way on both and leaves twins. -/
theorem ends {ending other : Ending} {after afterSecond : Machine}
    (ends : request.Ends first ending after) (endsSecond : request.Ends second other afterSecond) :
    other = ending ∧ after.Twins afterSecond := by
  cases ends with
  | @finished fuel _ _ ran finished =>
    rw [← ran] at finished
    cases endsSecond with
    | @finished more _ _ ranSecond finishedSecond =>
      rw [← ranSecond] at finishedSecond
      have agrees := twins.agrees request finished finishedSecond
      rw [ran, ranSecond] at agrees
      exact agrees.ending
    | hangs forever =>
      obtain ⟨more, agrees⟩ := twins.exists_agrees request finished
      exact absurd (forever more) agrees.finished
  | hangs forever =>
    cases endsSecond with
    | @finished more _ _ ranSecond finishedSecond =>
      rw [← ranSecond] at finishedSecond
      obtain ⟨fuel, agrees⟩ := twins.symm.exists_agrees request finishedSecond
      exact absurd (forever fuel) agrees.finished
    | hangs => exact ⟨rfl, twins⟩

omit request in
theorem session {requests : List Request} {endings others : List Ending}
    {last lastSecond : Machine} (session : Session first requests endings last)
    (sessionSecond : Session second requests others lastSecond) :
    others = endings ∧ last.Twins lastSecond := by
  induction session generalizing second others with
  | done machine =>
    cases sessionSecond
    exact ⟨rfl, twins⟩
  | next ends finite rest inductionHypothesis =>
    cases sessionSecond with
    | next endsSecond _ restSecond =>
      obtain ⟨rfl, twinsAfter⟩ := twins.ends _ ends endsSecond
      obtain ⟨rfl, twinsLast⟩ := inductionHypothesis twinsAfter restSecond
      exact ⟨rfl, twinsLast⟩
    | hung endsSecond => exact absurd (twins.ends _ ends endsSecond).1.symm finite
  | hung ends =>
    cases sessionSecond with
    | next endsSecond finite _ => exact absurd (twins.ends _ ends endsSecond).1 finite
    | hung endsSecond => exact ⟨rfl, (twins.ends _ ends endsSecond).2⟩

end Machine.Twins

/--
Take any machine that can be reached and whose methods have all been made by completing
drafts, and any two configurations with the same depth limit. Every sequence of requests
has a session with either, and the sessions have the same endings, request by request:
the same value, the same failure, or both run for ever. They leave machines that look the
same, so in particular with the same instances, arrays, contexts, globals and class layouts.
-/
theorem tiers_are_transparent {machine : Machine} (reachable : machine.Reachable)
    (drafted : machine.heap.Drafted) {first second : TierConfig}
    (sameDepth : first.maxDepth = second.maxDepth) (requests : List Request) :
    (∃ endings last, Session { machine with config := first } requests endings last) ∧
      ∀ endings last others lastOther,
        Session { machine with config := first } requests endings last →
        Session { machine with config := second } requests others lastOther →
          others = endings ∧ last.observed = lastOther.observed := by
  refine ⟨exists_session _ requests, fun endings last others lastOther session other => ?_⟩
  have twins : ({ machine with config := first } : Machine).Twins
      { machine with config := second } := by
    refine ⟨?_, reachable.ready, reachable.ready, drafted⟩
    simp only [Machine.observed, TierConfig.observed, sameDepth]
  obtain ⟨same, twinsLast⟩ := twins.session session other
  exact ⟨same, twinsLast.observed⟩

/-! ### Counting down -/

/-- Takes one from a copy of the receiver until it is less than zero. -/
def countingDraft : Draft where
  signature := ⟨0⟩
  scope := .outermost (.of [] [] false)
  catchesReturns := false
  isBlock := false
  assembler.code := ([.pushFrame 0, .pushZero, .jumpIfGreater 8, .pop, .dec, .jumpBackward 6,
    .returnSelf] : List Instruction).flatMap Instruction.encode |>.toArray

def countingSymbols : SymbolTable := (SymbolTable.intern {} "countDown").2

def countingMethod : Method :=
  match countingDraft.finish countingSymbols with
  | .ok method => method
  | .error _ => default

/-- Classes that all understand one message, by the method that will be made first. -/
def countingClasses : Heap :=
  { (default : Heap) with
    classes := ⟨Array.replicate CoreClass.all.length
      { (default : Class) with methods := ({} : Dictionary Invokable).insert ⟨0⟩ (.method ⟨0⟩) }⟩ }

def countingMachine : Machine :=
  { (default : Machine) with
    heap := ((countingClasses.intern "countDown").2.addMethod countingMethod).2 }

theorem countDown_endings :
    countingMachine.Reachable ∧ countingMachine.heap.Drafted ∧
      ∀ config : TierConfig, config.maxDepth = 1 → ∀ endings last,
        Session { countingMachine with config } [⟨.integer 3, "countDown", []⟩] endings last →
          endings = [.value (.integer 3)] := by
  have finished : countingDraft.finish countingSymbols = .ok countingMethod :=
    Draft.finish_of_isOk (by decide +kernel)
  have knows : countingSymbols.Knows countingDraft.literals := by
    intro index selector found
    cases found
  obtain ⟨-, -, -, literals, -⟩ := Draft.finish_spec finished
  have reachable : countingMachine.Reachable :=
    .hosted (.hosted (.start { (default : Machine) with heap := countingClasses } rfl rfl)
      (.intern "countDown")) (.addMethod countingMethod (literals ▸ knows))
  have drafted : countingMachine.heap.Drafted := by
    rintro ⟨index⟩ has
    obtain rfl : index = 0 := Nat.lt_one_iff.mp has
    exact ⟨countingDraft, countingSymbols, finished, knows, .refl _⟩
  refine ⟨reachable, drafted, fun config depth endings last session => ?_⟩
  have answers : ∃ after, Request.send ⟨.integer 3, "countDown", []⟩ 50
      { countingMachine with config := { mode := .tracing, maxDepth := 1 } } =
        .ok (.integer 3) after := by
    have found : (match Request.send ⟨.integer 3, "countDown", []⟩ 50
        { countingMachine with config := { mode := .tracing, maxDepth := 1 } } with
      | .ok value _ => decide (value = .integer 3)
      | .error _ _ => false) = true := by
      decide +kernel
    split at found
    · rename_i value after ran
      exact ⟨after, of_decide_eq_true found ▸ ran⟩
    · cases found
  obtain ⟨after, ran⟩ := answers
  have plain : Session { countingMachine with config := { mode := .tracing, maxDepth := 1 } }
      [⟨.integer 3, "countDown", []⟩] [.value (.integer 3)] after := by
    refine .next (.finished ran ?_) (fun same => by cases same) (.done after)
    rintro ⟨_, same⟩
    cases same
  exact ((tiers_are_transparent reachable drafted depth.symm _).2 _ _ _ _ plain session).1

end ObjectMachine
