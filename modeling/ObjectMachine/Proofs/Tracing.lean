/-
This file shows that a run in any mode and plain decoding come to the same, whichever of
them has come to an end. The comparison is loose: hidden steps may be taken on either
side, and the first run may be the one whose fuel is not enough. How much more the second
one needs is bounded: decoding takes no more turns than all legs of a run together, and a
run needs at most two turns and two legs for each step of decoding.
-/

import ObjectMachine.Proofs.Decoding

namespace ObjectMachine

/-! ### Leaving a loop -/

namespace Activation

/-- What is done when a loop has been left. -/
def arrive (legs : Tier → Activation → Nat → Engine (Exit × Activation)) (fuel : Nat)
    (left : Exit × Activation) : Engine Value := do
  match left.1 with
  | .answer value => return value
  | .transfer toward offset stack =>
    Engine.countTransfer toward
    drive legs fuel toward { left.2 with stack } offset

/-- What is done after a turn: on in the loop, or out of it. -/
def heed (turn : Activation → Nat → Engine Turn)
    (legs : Tier → Activation → Nat → Engine (Exit × Activation)) (more fuel : Nat) :
    Turn → Engine Value
  | .on activation offset => loop turn fuel activation offset >>= arrive legs more
  | .exit exit activation => arrive legs more (exit, activation)

variable {turn : Activation → Nat → Engine Turn}
  {legs : Tier → Activation → Nat → Engine (Exit × Activation)} {more fuel : Nat}

theorem drive_succ (tier : Tier) (activation : Activation) (offset : Nat) :
    drive legs (more + 1) tier activation offset =
      legs tier activation offset >>= arrive legs more :=
  rfl

theorem loop_succ (activation : Activation) (offset : Nat) :
    loop turn (fuel + 1) activation offset >>= arrive legs more =
      turn activation offset >>= heed turn legs more fuel := by
  rw [loop, bind_assoc]
  congr 1
  funext outcome
  cases outcome with
  | on activation offset => rfl
  | exit exit activation => exact pure_bind _ _

/-- An activation that leaves a loop is driven on in the other one. -/
theorem heed_leave (toward : Tier) (activation : Activation) (offset : Nat) :
    heed turn legs more fuel (activation.leave toward offset) =
      Engine.countTransfer toward >>= fun _ => drive legs more toward activation offset :=
  rfl

/-- A leg in the threaded loop, up to what is done before it. -/
theorem runIn_threaded {machine : Machine} (coherent : machine.heap.Coherent) (call : Caller)
    (fuel : Nat) (activation : Activation) (offset : Nat)
    (compiles : ∃ pool program, ThreadedProgram.compile
      (machine.heap.instructionAt activation.method)
      (machine.heap.methods.get activation.method).code.size machine.continuations =
        (pool, .ok program)) :
    ∃ hasProgram hybrid after, machine.Hides after ∧
      activation.runIn call fuel .threaded offset machine =
        loop (threadedTurn call hasProgram hybrid) fuel activation offset after := by
  rcases Engine.ensureThreaded_hides coherent with
    ⟨hasProgram, after, ensured, hides⟩ | ⟨⟨pool, error, failed⟩, -⟩
  · refine ⟨hasProgram, after.config.mode == .hybrid, after, hides, ?_⟩
    show activation.runThreaded call fuel offset machine = _
    rw [runThreaded, Engine.bind_of_ok ensured]
    rfl
  · obtain ⟨_, _, made⟩ := compiles
    rw [failed] at made
    cases made

end Activation

/-! ### Loose simulations -/

/-- What a simulation needs to overlook what the loops do for themselves. -/
structure Simulation.Loose (sim : Simulation) : Prop where
  tolerates : ∀ abrupt, sim.tolerates abrupt
  patient : sim.patient
  first : ∀ {x y after : Machine}, sim.related x y → x.Hides after → sim.related after y
  second : ∀ {x y after : Machine}, sim.related x y → y.Hides after → sim.related x after
  compiles : ∀ heap : Heap, heap.code = sim.code → heap.Coherent → ∀ method pool,
    ∃ after program, ThreadedProgram.compile (heap.instructionAt method)
      (heap.methods.get method).code.size pool = (after, .ok program)

namespace Simulation

variable {sim : Simulation} (loose : sim.Loose) {callFirst callSecond : Caller}
  (calls : sim.Calls callFirst callSecond) {activation : Activation} {offset : Nat}

include loose calls

/-- Two runs that execute the instruction at an offset and go on from there in some way. -/
theorem matches_executed (first second : Activation → Nat → Flow → Engine Value)
    (goes : ∀ after next flow,
      (flow = .retry → ∃ instruction length,
        sim.code.Stands after.method offset instruction length) →
      sim.Matches (first after next flow) (second after next flow)) :
    sim.Matches
      (do
        let found ← Engine.instructionAt activation.method offset
        let executed ← activation.execute callFirst offset found.1
        first executed.2 (offset + found.2) executed.1)
      (do
        let found ← Engine.instructionAt activation.method offset
        let executed ← activation.execute callSecond offset found.1
        second executed.2 (offset + found.2) executed.1) := by
  refine .bind (follows_instructionAt activation.method offset) fun found stands => ?_
  refine .bind (follows_execute calls stands (.inr (loose.tolerates _))) fun executed lands => ?_
  exact goes executed.2 _ executed.1 fun retry =>
    ⟨found.1, found.2, by
      obtain ⟨flow, after⟩ := executed
      subst retry
      exact lands.retryMethod ▸ stands⟩

/-- A plain turn and a step of decoding. -/
theorem matches_plainTurn_decode {follow : Activation → Nat → Flow → Engine Turn}
    (hidden : Activation.Hidden offset follow) {onTurn : Turn → Engine Value} {fuel : Nat}
    (goes : ∀ after course turn, after.Arrives course turn →
      sim.Matches (onTurn turn)
        (Activation.proceed (Activation.decode callSecond fuel) after course)) :
    sim.Matches (activation.plainTurn callFirst follow offset >>= onTurn)
      (activation.decode callSecond (fuel + 1) offset) := by
  rw [Activation.plainTurn, bind_assoc]
  simp only [bind_assoc]
  refine matches_executed loose calls (fun after next flow => follow after next flow >>= onTurn)
    (fun after next flow =>
      Activation.proceed (Activation.decode callSecond fuel) after (flow.course offset next))
    fun after next flow stands x y related => ?_
  obtain ⟨turn, other, followed, hides, arrives⟩ :=
    hidden after next flow x (sim.alike related).coherent
      ((sim.alike related).code ▸ stands)
  rw [Engine.bind_of_ok followed]
  exact goes after _ turn arrives other y (loose.first related hides)

/-- A step of decoding and a plain turn. -/
theorem matches_decode_plainTurn {follow : Activation → Nat → Flow → Engine Turn}
    (hidden : Activation.Hidden offset follow) {onTurn : Turn → Engine Value} {fuel : Nat}
    (goes : ∀ after course turn, after.Arrives course turn →
      sim.Matches (Activation.proceed (Activation.decode callFirst fuel) after course)
        (onTurn turn)) :
    sim.Matches (activation.decode callFirst (fuel + 1) offset)
      (activation.plainTurn callSecond follow offset >>= onTurn) := by
  rw [Activation.plainTurn, bind_assoc]
  simp only [bind_assoc]
  refine matches_executed loose calls
    (fun after next flow =>
      Activation.proceed (Activation.decode callFirst fuel) after (flow.course offset next))
    (fun after next flow => follow after next flow >>= onTurn)
    fun after next flow stands x y related => ?_
  obtain ⟨turn, other, followed, hides, arrives⟩ :=
    hidden after next flow y (sim.alike related).coherentSecond
      ((sim.alike related).codeSecond ▸ stands)
  rw [Engine.bind_of_ok followed]
  exact goes after _ turn arrives x other (loose.second related hides)

/-! ### What runs in any mode come to, decoding comes to -/

section

variable {legs : Tier → Activation → Nat → Engine (Exit × Activation)} {more base : Nat}
  (drives : ∀ toward activation offset fuel, base ≤ fuel →
    sim.Matches (Activation.drive legs more toward activation offset)
      (activation.decode callSecond fuel offset))

include drives

omit calls in
theorem matches_leave_decode (toward : Tier) (activation : Activation) (offset : Nat) {fuel : Nat}
    (enough : base ≤ fuel) :
    sim.Matches (Engine.countTransfer toward >>= fun _ =>
        Activation.drive legs more toward activation offset)
      (activation.decode callSecond fuel offset) := by
  intro x y related
  obtain ⟨after, counted, hides⟩ := Engine.countTransfer_hides (sim.alike related).coherent toward
  rw [Engine.bind_of_ok counted]
  exact drives toward activation offset fuel enough after y (loose.first related hides)

omit calls in
theorem matches_heed_decode {turn : Activation → Nat → Engine Turn} {turns fuel : Nat}
    (loops : ∀ activation offset, sim.Matches
      (Activation.loop turn turns activation offset >>= Activation.arrive legs more)
      (activation.decode callSecond fuel offset)) (enough : base ≤ fuel) {after : Activation}
    {course : Value ⊕ Nat} {outcome : Turn} (arrives : after.Arrives course outcome) :
    sim.Matches (Activation.heed turn legs more turns outcome)
      (Activation.proceed (Activation.decode callSecond fuel) after course) := by
  cases arrives with
  | answer value => exact .pure trivial
  | on target => exact loops after target
  | leave toward target =>
    rw [Activation.heed_leave]
    exact matches_leave_decode loose drives toward after target enough

theorem matches_threaded_decode (hasProgram hybrid : Bool) {turns fuel : Nat}
    (enough : base + turns ≤ fuel) (activation : Activation) (offset : Nat) :
    sim.Matches
      (Activation.loop (Activation.threadedTurn callFirst hasProgram hybrid) turns activation
        offset >>= Activation.arrive legs more)
      (activation.decode callSecond fuel offset) := by
  induction turns generalizing fuel activation offset with
  | zero => exact fun x y related => .fuel loose.patient
  | succ turns inductionHypothesis =>
    obtain ⟨fuel, rfl⟩ : ∃ rest, fuel = rest + 1 := ⟨fuel - 1, by omega⟩
    rw [Activation.loop_succ]
    intro x y related
    rcases Activation.threadedTurn_cases (sim.alike related).coherent hasProgram hybrid with
      plain | ⟨after, reread, hides, -⟩
    · rw [Engine.bind_congr plain]
      refine matches_plainTurn_decode loose calls
        (Activation.hidden_followThreaded hasProgram hybrid offset)
        (fun _ _ _ arrives => ?_) x y related
      exact matches_heed_decode loose drives (inductionHypothesis (by omega)) (by omega) arrives
    · rw [Engine.bind_of_ok reread]
      exact inductionHypothesis (by omega) activation offset after y (loose.first related hides)

theorem matches_sequential_decode (hybrid : Bool) {turns fuel : Nat}
    (enough : base + turns ≤ fuel) (activation : Activation) (offset : Nat) :
    sim.Matches
      (Activation.loop (Activation.sequentialTurn callFirst hybrid) turns activation
        offset >>= Activation.arrive legs more)
      (activation.decode callSecond fuel offset) := by
  induction turns generalizing fuel activation offset with
  | zero => exact fun x y related => .fuel loose.patient
  | succ turns inductionHypothesis =>
    obtain ⟨fuel, rfl⟩ : ∃ rest, fuel = rest + 1 := ⟨fuel - 1, by omega⟩
    rw [Activation.loop_succ]
    intro x y related
    rcases Activation.sequentialTurn_cases (sim.alike related).coherent hybrid with
      plain | ⟨after, handed, hides⟩
    · rw [Engine.bind_congr plain]
      refine matches_plainTurn_decode loose calls (Activation.hidden_followSequential offset)
        (fun _ _ _ arrives => ?_) x y related
      exact matches_heed_decode loose drives (inductionHypothesis (by omega)) (by omega) arrives
    · rw [Engine.bind_of_ok handed, Activation.heed_leave]
      exact matches_leave_decode loose drives .threaded activation offset (by omega) after y
        (loose.first related hides)

end

/-- Decoding takes no more turns than all legs of a run together. -/
theorem matches_drive_decode (legFuel : Nat) {more fuel : Nat} (enough : more * legFuel ≤ fuel)
    (tier : Tier) (activation : Activation) (offset : Nat) :
    sim.Matches
      (Activation.drive (Activation.runIn callFirst legFuel) more tier activation offset)
      (activation.decode callSecond fuel offset) := by
  induction more generalizing fuel tier activation offset with
  | zero => exact fun x y related => .fuel loose.patient
  | succ more inductionHypothesis =>
    rw [Nat.succ_mul] at enough
    rw [Activation.drive_succ]
    have drives (toward : Tier) (activation : Activation) (offset fuel : Nat)
        (room : more * legFuel ≤ fuel) := inductionHypothesis room toward activation offset
    cases tier with
    | threaded =>
      intro x y related
      obtain ⟨hasProgram, hybrid, after, hides, ran⟩ := Activation.runIn_threaded
        (sim.alike related).coherent callFirst legFuel activation offset
        (loose.compiles x.heap (sim.alike related).code (sim.alike related).coherent _ _)
      rw [Engine.bind_congr ran]
      exact matches_threaded_decode loose calls drives hasProgram hybrid enough activation offset
        after y (loose.first related hides)
    | sequential =>
      intro x y related
      exact matches_sequential_decode loose calls drives (x.config.mode == .hybrid) enough
        activation offset x y related

/-! ### What decoding comes to, runs in any mode come to -/

omit loose calls in
/-- With two turns and two legs for each step of decoding, the loops come to the same. -/
def Pursued (sim : Simulation) (callFirst callSecond : Caller) (legFuel fuel : Nat) : Prop :=
  ∀ turns more, 2 * fuel + 2 ≤ turns → 2 * fuel + 2 ≤ more → ∀ activation offset,
    (∀ hasProgram hybrid, sim.Matches (Activation.decode callFirst fuel activation offset)
      (Activation.loop (Activation.threadedTurn callSecond hasProgram hybrid) turns activation
        offset >>= Activation.arrive (Activation.runIn callSecond legFuel) more)) ∧
    ∀ hybrid, sim.Matches (Activation.decode callFirst fuel activation offset)
      (Activation.loop (Activation.sequentialTurn callSecond hybrid) turns activation
        offset >>= Activation.arrive (Activation.runIn callSecond legFuel) more)

section

variable {legFuel fuel : Nat} (pursued : sim.Pursued callFirst callSecond legFuel fuel)
  (long : 2 * fuel + 2 ≤ legFuel)

include pursued long

omit calls in
theorem Pursued.drive {more : Nat} (enough : 2 * fuel + 3 ≤ more) (tier : Tier)
    (activation : Activation) (offset : Nat) :
    sim.Matches (activation.decode callFirst fuel offset)
      (Activation.drive (Activation.runIn callSecond legFuel) more tier activation offset) := by
  obtain ⟨more, rfl⟩ : ∃ rest, more = rest + 1 := ⟨more - 1, by omega⟩
  rw [Activation.drive_succ]
  obtain ⟨threaded, sequential⟩ := pursued legFuel more long (by omega) activation offset
  intro x y related
  cases tier with
  | threaded =>
    obtain ⟨hasProgram, hybrid, after, hides, ran⟩ := Activation.runIn_threaded
      (sim.alike related).coherentSecond callSecond legFuel activation offset
      (loose.compiles y.heap (sim.alike related).codeSecond (sim.alike related).coherentSecond _ _)
    rw [Engine.bind_congr ran]
    exact threaded hasProgram hybrid x after (loose.second related hides)
  | sequential => exact sequential (y.config.mode == .hybrid) x y related

omit calls in
theorem Pursued.leave {more : Nat} (enough : 2 * fuel + 3 ≤ more) (toward : Tier)
    (activation : Activation) (offset : Nat) :
    sim.Matches (activation.decode callFirst fuel offset)
      (Engine.countTransfer toward >>= fun _ =>
        Activation.drive (Activation.runIn callSecond legFuel) more toward activation offset) := by
  intro x y related
  obtain ⟨after, counted, hides⟩ :=
    Engine.countTransfer_hides (sim.alike related).coherentSecond toward
  rw [Engine.bind_of_ok counted]
  exact pursued.drive loose long enough toward activation offset x after
    (loose.second related hides)

omit calls in
theorem Pursued.heed {turn : Activation → Nat → Engine Turn} {turns more : Nat}
    (loops : ∀ activation offset, sim.Matches (Activation.decode callFirst fuel activation offset)
      (Activation.loop turn turns activation offset >>=
        Activation.arrive (Activation.runIn callSecond legFuel) more))
    (enough : 2 * fuel + 3 ≤ more) {after : Activation} {course : Value ⊕ Nat} {outcome : Turn}
    (arrives : after.Arrives course outcome) :
    sim.Matches (Activation.proceed (Activation.decode callFirst fuel) after course)
      (Activation.heed turn (Activation.runIn callSecond legFuel) more turns outcome) := by
  cases arrives with
  | answer value => exact .pure trivial
  | on target => exact loops after target
  | leave toward target =>
    rw [Activation.heed_leave]
    exact pursued.leave loose long enough toward after target

/-- One more step of decoding takes the threaded loop two turns at most. -/
theorem Pursued.threaded {turns more : Nat} (room : 2 * fuel + 4 ≤ turns)
    (enough : 2 * fuel + 3 ≤ more) (hasProgram hybrid : Bool) (activation : Activation)
    (offset : Nat) :
    sim.Matches (activation.decode callFirst (fuel + 1) offset)
      (Activation.loop (Activation.threadedTurn callSecond hasProgram hybrid) turns activation
        offset >>= Activation.arrive (Activation.runIn callSecond legFuel) more) := by
  have plainly (turns : Nat) (room : 2 * fuel + 2 ≤ turns) :
      sim.Matches (activation.decode callFirst (fuel + 1) offset)
        (activation.plainTurn callSecond
          (fun after => after.followThreaded hasProgram hybrid offset) offset >>=
            Activation.heed (Activation.threadedTurn callSecond hasProgram hybrid)
              (Activation.runIn callSecond legFuel) more turns) := by
    refine matches_decode_plainTurn loose calls
      (Activation.hidden_followThreaded hasProgram hybrid offset) fun _ _ _ arrives => ?_
    refine pursued.heed loose long (fun activation offset => ?_) enough arrives
    exact (pursued turns more room (by omega) activation offset).1 hasProgram hybrid
  obtain ⟨turns, rfl⟩ : ∃ rest, turns = rest + 2 := ⟨turns - 2, by omega⟩
  rw [Activation.loop_succ]
  intro x y related
  have coherent := (sim.alike related).coherentSecond
  rcases Activation.threadedTurn_cases coherent hasProgram hybrid with
    plain | ⟨after, reread, hides, current⟩
  · rw [Engine.bind_congr plain]
    exact plainly (turns + 1) (by omega) x y related
  · rw [Engine.bind_of_ok reread]
    show sim.Joint _ _ ((Activation.loop (Activation.threadedTurn callSecond hasProgram hybrid)
      (turns + 1) activation offset >>= _) after)
    rw [Activation.loop_succ, Engine.bind_congr
      (Activation.threadedTurn_of_current hides.coherent current hasProgram hybrid)]
    exact plainly turns (by omega) x after (loose.second related hides)

omit long in
/-- One more step of decoding takes the sequential loop one turn, or one in the threaded loop. -/
theorem Pursued.sequential (long : 2 * fuel + 4 ≤ legFuel) {turns more : Nat}
    (room : 2 * fuel + 4 ≤ turns) (enough : 2 * fuel + 4 ≤ more) (hybrid : Bool)
    (activation : Activation) (offset : Nat) :
    sim.Matches (activation.decode callFirst (fuel + 1) offset)
      (Activation.loop (Activation.sequentialTurn callSecond hybrid) turns activation
        offset >>= Activation.arrive (Activation.runIn callSecond legFuel) more) := by
  obtain ⟨turns, rfl⟩ : ∃ rest, turns = rest + 1 := ⟨turns - 1, by omega⟩
  rw [Activation.loop_succ]
  intro x y related
  rcases Activation.sequentialTurn_cases (sim.alike related).coherentSecond hybrid with
    plain | ⟨after, handed, hides⟩
  · rw [Engine.bind_congr plain]
    refine matches_decode_plainTurn loose calls (Activation.hidden_followSequential offset)
      (fun _ _ _ arrives => ?_) x y related
    refine pursued.heed loose (by omega) (fun activation offset => ?_) (by omega) arrives
    exact (pursued turns more (by omega) (by omega) activation offset).2 hybrid
  · rw [Engine.bind_of_ok handed, Activation.heed_leave]
    obtain ⟨other, counted, hidesToo⟩ := Engine.countTransfer_hides hides.coherent .threaded
    rw [Engine.bind_of_ok counted]
    obtain ⟨more, rfl⟩ : ∃ rest, more = rest + 1 := ⟨more - 1, by omega⟩
    rw [Activation.drive_succ]
    have relatedNow := loose.second (loose.second related hides) hidesToo
    obtain ⟨hasProgram, hybrid, last, hidesLast, ran⟩ := Activation.runIn_threaded
      hidesToo.coherent callSecond legFuel activation offset
      (loose.compiles other.heap (sim.alike relatedNow).codeSecond hidesToo.coherent _ _)
    rw [Engine.bind_congr ran]
    exact pursued.threaded loose calls (by omega) long (by omega) hasProgram hybrid activation
      offset x last (loose.second relatedNow hidesLast)

end

/-- However long decoding takes, loops with enough room come to the same. -/
theorem pursued (legFuel fuel : Nat) (long : 2 * fuel + 2 ≤ legFuel) :
    sim.Pursued callFirst callSecond legFuel fuel := by
  induction fuel with
  | zero =>
    intro turns more _ _ activation offset
    exact ⟨fun _ _ x y related => .fuel loose.patient, fun _ x y related => .fuel loose.patient⟩
  | succ fuel inductionHypothesis =>
    have before := inductionHypothesis (by omega)
    intro turns more room enough activation offset
    constructor
    · intro hasProgram hybrid
      exact before.threaded loose calls (by omega) (by omega) (by omega) hasProgram hybrid
        activation offset
    · intro hybrid
      exact before.sequential loose calls (by omega) (by omega) (by omega) hybrid
        activation offset

end Simulation

end ObjectMachine
