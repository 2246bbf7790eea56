/-
This file proves that the programs that come with the machine are right, for every number they
can be made for and in every configuration. What a program does is followed in the sequential
mode, on the machine that its definition leaves, and every other mode does the same.
-/

import ObjectMachine.Proofs.Answering
import ObjectMachine.Proofs.Looping
import ObjectMachine.Proofs.ProgramDefinitions
import ObjectMachine.Proofs.Summing

namespace ObjectMachine

/-! ### Requests to the first instance -/

/-- A request to the first instance of a class ends in every mode as its message does. -/
theorem Heap.Pristine.ends {machine : Machine} (pristine : machine.heap.Pristine)
    (start : machine.depth = 0) {cls : ClassId} {name : String} {method : MethodId}
    {arguments : List Value} {objects others : Heap → Prop} (ending : Ending) {focus : Focus}
    (offers : machine.heap.Offers cls name method)
    (passage : Passage ((pristine.stage machine.config.maxDepth).At objects 0)
      ⟨.call ⟨.method method, .object machine.heap.instances.next, .many arguments⟩, []⟩
      ((pristine.stage machine.config.maxDepth).At others 0) ⟨focus, []⟩)
    (known : objects (machine.heap.addInstance cls).2.unlearned)
    (outcome : ending.focus? = some focus) :
    ∃ after other : Machine,
      Request.Ends ⟨.object machine.heap.instances.next, name, arguments⟩
        { machine with heap := (machine.heap.addInstance cls).2 } ending after ∧
      after.observed = other.observed ∧ others other.heap.unlearned := by
  have here := pristine.at_addInstance start known machine.config.maxDepth
  obtain ⟨current, owner⟩ := pristine.upToDate_addInstance (has_of_lookup? offers.2)
  have found : (machine.heap.addInstance cls).2.lookup?
      ((machine.heap.addInstance cls).2.ownerOf machine.heap.instances.next)
      (machine.heap.symbolOf name) = some (.method method) := by
    rw [owner, ← offers.2]
    exact lookup?_of_classes rfl
  have sequential : ∃ other, (pristine.stage machine.config.maxDepth).At others 0 other ∧
      Request.Ends ⟨.object machine.heap.instances.next, name, arguments⟩ _ ending other :=
    passage.ends here offers.1 current found outcome
  obtain ⟨other, there, ends⟩ := sequential
  have allowed : (Change.addInstance cls).Allowed machine.heap := trivial
  obtain ⟨after, endsToo, same⟩ := ends.configured (pristine.ready.apply allowed)
    (pristine.isDrafted.of_code (machine.heap.code_apply (.addInstance cls)))
    (rfl : machine.config.maxDepth = _)
  exact ⟨after, other, endsToo, same.symm, there.objects⟩

/-! ### Numbers of 64 bits -/

namespace Program

section

variable {n : Int64} (nonnegative : 0 ≤ n)
  (fits : n.toInt * (n.toInt + 1) ≤ Value.largestInteger)

include nonnegative

theorem toInt_nonnegative : 0 ≤ n.toInt := Int64.le_iff_toInt_le.mp nonnegative

include fits

theorem product_bounds : 0 ≤ n.toInt * (n.toInt + 1) ∧ n.toInt * (n.toInt + 1) < 2 ^ 63 := by
  have least := toInt_nonnegative nonnegative
  rw [Value.largestInteger] at fits
  exact ⟨Int.mul_nonneg least (Int.le_add_one least), by omega⟩

/-- A number is small when its product with the next one is not too large. -/
theorem toInt_small : n.toInt < 2 ^ 61 := by
  have least := toInt_nonnegative nonnegative
  have bounds := product_bounds nonnegative fits
  by_contra large
  have more : (2 : Int) ^ 61 * 2 ^ 61 ≤ n.toInt * (n.toInt + 1) :=
    Int.mul_le_mul (by omega) (by omega) (by decide) least
  omega

theorem toInt_succ : (n + 1).toInt = n.toInt + 1 := by
  have least := toInt_nonnegative nonnegative
  have small := toInt_small nonnegative fits
  have one : (1 : Int64).toInt = 1 := rfl
  rw [Int64.toInt_add, one]
  exact Int.bmod_eq_of_le (by omega) (by omega)

theorem toInt_triangle : (triangle n).toInt = triangleNumber n.toInt := by
  have bounds := product_bounds nonnegative fits
  have product : (n * (n + 1)).toInt = n.toInt * (n.toInt + 1) := by
    rw [Int64.toInt_mul, toInt_succ nonnegative fits]
    exact Int.bmod_eq_of_le (by omega) (by omega)
  have two : (2 : Int64).toInt = 2 := rfl
  rw [triangle, Int64.toInt_div, product, two, Int.tdiv_eq_ediv_of_nonneg bounds.1, triangleNumber]
  exact Int.bmod_eq_of_le (by omega) (by omega)

theorem toInt_loopResult : (loopResult n).toInt = triangleNumber n.toInt + (n.toInt + 1) := by
  have small := toInt_small nonnegative fits
  have least := toInt_nonnegative nonnegative
  have bounds : 0 ≤ triangleNumber n.toInt ∧ triangleNumber n.toInt < 2 ^ 62 := by
    have product := product_bounds nonnegative fits
    rw [triangleNumber]
    omega
  have one : (1 : Int64).toInt = 1 := rfl
  rw [loopResult, Int64.toInt_add, Int64.toInt_add, toInt_triangle nonnegative fits, one,
    Int.bmod_add_bmod, Int.add_assoc]
  exact Int.bmod_eq_of_le (by omega) (by omega)

theorem ofInt_triangle : Value.ofInt (triangleNumber n.toInt) = .integer (triangle n) := by
  rw [← toInt_triangle nonnegative fits, Value.ofInt_toInt]

theorem ofInt_succ : Value.ofInt (n.toInt + 1) = .integer (n + 1) := by
  rw [← toInt_succ nonnegative fits, Value.ofInt_toInt]

theorem ofInt_loopResult :
    Value.ofInt (triangleNumber n.toInt + (n.toInt + 1)) = .integer (loopResult n) := by
  rw [← toInt_loopResult nonnegative fits, Value.ofInt_toInt]

end

/-! ### Answers -/

/-- Defines the class of a program, a loop in it taking so many turns, and makes an instance. -/
def instantiate (turns : Int64) (program : Program) : Construction InstanceId := do
  let cls ← program.defineWith turns
  modifyGet fun machine =>
    let (object, heap) := machine.heap.addInstance cls
    (object, { machine with heap })

theorem instantiate_of_defines {program : Program} {turns : Int64} {first machine : Machine}
    {cls : ClassId} (defines : program.defineWith turns first = .ok cls machine) :
    program.instantiate turns first = .ok machine.heap.instances.next
      { machine with heap := (machine.heap.addInstance cls).2 } := by
  show EStateM.bind _ _ _ = _
  rw [EStateM.bind, defines]
  rfl

section

variable (config : TierConfig) {n : Int64} (nonnegative : 0 ≤ n)
  (fits : n.toInt * (n.toInt + 1) ≤ Value.largestInteger)

include nonnegative fits

theorem dispatch_answers (room : 2 ≤ config.maxDepth) :
    ∃ object machine after,
      dispatch.instantiate n (Machine.start config) = .ok object machine ∧
      Request.Ends ⟨.object object, "benchmark", []⟩ machine (.value (.integer (triangle n)))
        after := by
  obtain ⟨cls, machine, defines, rfl, start, pristine, known⟩ := defines_dispatch config n
  obtain ⟨forwards, adds, forward, run, plus⟩ := known
  let stage := pristine.stage machine.config.maxDepth
  let object := machine.heap.instances.next
  have forwards : stage.methodAt ⟨0⟩ = _ := forwards
  have adds : stage.methodAt ⟨1⟩ = _ := adds
  have understands : stage.Understands cls _ ⟨0⟩ := .of_lookup? forward.2
  have plus : stage.Provides _ _ _ := .of_operation? plus
  have passage : Passage (stage.At (Heap.UpToDate object cls) 0)
      ⟨.call ⟨.method ⟨1⟩, .object object, .many []⟩, []⟩
      (stage.At (Heap.UpToDate object cls) 0) ⟨.answer (.integer (triangle n)), []⟩ := by
    rw [← ofInt_triangle nonnegative fits]
    exact Dispatching.answers forwards adds understands plus (toInt_nonnegative nonnegative) room
  have current := pristine.upToDate_addInstance (Heap.has_of_lookup? run.2)
  obtain ⟨after, _, ends, -⟩ := pristine.ends start (.value _) run passage current rfl
  exact ⟨_, _, after, instantiate_of_defines defines, ends⟩

theorem loop_answers (room : 2 ≤ config.maxDepth) :
    ∃ object machine after,
      loop.instantiate n (Machine.start config) = .ok object machine ∧
      Request.Ends ⟨.object object, "benchmark", []⟩ machine (.value (.integer (loopResult n)))
        after ∧
      after.heap.getField? object 0 = some (.integer (n + 1)) := by
  obtain ⟨shared, cls, machine, defines, rfl, start, pristine, known⟩ := defines_loop config n
  obtain ⟨runs, counts, run, countdown, plus, greater, inRange⟩ := known
  let stage := pristine.stage machine.config.maxDepth
  let object := machine.heap.instances.next
  have runs : stage.methodAt ⟨0⟩ = _ := runs
  have counts : stage.methodAt ⟨1⟩ = _ := counts
  have understands : stage.Understands cls _ ⟨1⟩ := .of_lookup? countdown.2
  have plus : stage.Provides _ _ _ := .of_operation? plus
  have greater : stage.Provides _ _ _ := .of_operation? greater
  have passage : Passage (stage.At (Heap.Stores object cls 0 .nil) 0)
      ⟨.call ⟨.method ⟨0⟩, .object object, .many []⟩, []⟩
      (stage.At (Heap.Stores object cls 0 (.integer (n + 1))) 0)
      ⟨.answer (.integer (loopResult n)), []⟩ := by
    rw [← ofInt_loopResult nonnegative fits, ← ofInt_succ nonnegative fits]
    exact Looping.answers runs plus counts understands greater (toInt_nonnegative nonnegative) room
  have blank := pristine.stores_addInstance (Heap.has_of_lookup? run.2) inRange
  obtain ⟨after, other, ends, same, stores⟩ :=
    pristine.ends start (.value _) run passage blank.unlearned rfl
  refine ⟨_, _, after, instantiate_of_defines defines, ends, ?_⟩
  have answers : other.heap.getField? object 0 = some (.integer (n + 1)) := stores.answers
  exact (congrArg (fun machine : Machine => machine.heap.getField? object 0) same :).trans answers

theorem sum_answers (positive : 1 ≤ n) :
    ∃ object machine after,
      sum.instantiate n (Machine.start config) = .ok object machine ∧
      Request.Ends ⟨.object object, "sum:", [.integer n]⟩ machine
        (if 2 * n.toInt - 1 ≤ config.maxDepth then .value (.integer (triangle n))
          else .failure (.error (.stackOverflow (config.maxDepth + 1)))) after := by
  obtain ⟨cls, machine, defines, rfl, start, pristine, known⟩ := defines_sum config n
  obtain ⟨nests, sums, run, atMost, choose, minus, plus⟩ := known
  let stage := pristine.stage machine.config.maxDepth
  let object := machine.heap.instances.next
  have nests : stage.methodAt ⟨0⟩ = _ := nests
  have sums : stage.methodAt ⟨1⟩ = _ := sums
  have atMost : stage.Provides _ _ _ := .of_operation? atMost
  have choose (truth : Bool) : stage.Provides _ _ _ := .of_operation? (choose truth)
  have minus : stage.Provides _ _ _ := .of_operation? minus
  have understands : stage.Understands cls _ ⟨1⟩ := .of_lookup? run.2
  have plus : stage.Provides _ _ _ := .of_operation? plus
  have current := pristine.upToDate_addInstance (Heap.has_of_lookup? run.2)
  obtain ⟨left, count⟩ : ∃ left : Nat, n.toInt = left + 1 := by
    have positive : 1 ≤ n.toInt := Int64.le_iff_toInt_le.mp positive
    exact ⟨(n.toInt - 1).toNat, by omega⟩
  have settled : (Arguments.many [.integer n]).settled = .one (.ofInt n.toInt) := by
    rw [Value.ofInt_toInt]
    rfl
  by_cases room : 2 * n.toInt - 1 ≤ machine.config.maxDepth
  · have passage : Passage (stage.At (· = (machine.heap.addInstance cls).2.unlearned) 0)
        ⟨.call ⟨.method ⟨1⟩, .object object, .many [.integer n]⟩, []⟩ (stage.At (fun _ => True) 0)
        ⟨.answer (.integer (triangle n)), []⟩ := by
      have enough : 0 + (2 * left + 1) ≤ machine.config.maxDepth := by omega
      rw [← ofInt_triangle nonnegative fits]
      exact Summing.answers sums nests atMost choose minus understands plus left count settled
        current enough
    obtain ⟨after, _, ends, -⟩ := pristine.ends start (.value _) run passage rfl rfl
    rw [if_pos room]
    exact ⟨_, _, after, instantiate_of_defines defines, ends⟩
  · have passage : Passage (stage.At (· = (machine.heap.addInstance cls).2.unlearned) 0)
        ⟨.call ⟨.method ⟨1⟩, .object object, .many [.integer n]⟩, []⟩ (stage.At (fun _ => True) 0)
        ⟨.fail (.error (.stackOverflow (machine.config.maxDepth + 1))), []⟩ := by
      have full : machine.config.maxDepth < 0 + (2 * left + 1) := by omega
      exact Summing.overflows sums nests atMost choose minus understands left count settled current
        (Nat.zero_le _) full
    obtain ⟨after, _, ends, -⟩ :=
      pristine.ends start (.failure (.error _)) run passage rfl rfl
    rw [if_neg room]
    exact ⟨_, _, after, instantiate_of_defines defines, ends⟩

end

end Program

open Program in
/-- In every configuration whose limit leaves room for them, the programs that come with the
machine answer as they should, for every number whose product with the next one can be held. -/
theorem built_in_programs_are_correct (config : TierConfig) (n : Int64) (nonnegative : 0 ≤ n)
    (fits : n.toInt * (n.toInt + 1) ≤ Value.largestInteger) :
    (2 ≤ config.maxDepth → ∃ object machine after,
      dispatch.instantiate n (Machine.start config) = .ok object machine ∧
      Request.Ends ⟨.object object, "benchmark", []⟩ machine (.value (.integer (triangle n)))
        after) ∧
    (2 ≤ config.maxDepth → ∃ object machine after,
      loop.instantiate n (Machine.start config) = .ok object machine ∧
      Request.Ends ⟨.object object, "benchmark", []⟩ machine (.value (.integer (loopResult n)))
        after ∧
      after.heap.getField? object 0 = some (.integer (n + 1))) ∧
    (1 ≤ n → ∃ object machine after,
      sum.instantiate n (Machine.start config) = .ok object machine ∧
      Request.Ends ⟨.object object, "sum:", [.integer n]⟩ machine
        (if 2 * n.toInt - 1 ≤ config.maxDepth then .value (.integer (triangle n))
          else .failure (.error (.stackOverflow (config.maxDepth + 1)))) after) :=
  ⟨dispatch_answers config nonnegative fits, loop_answers config nonnegative fits,
    sum_answers config nonnegative fits⟩

/-- A limit of six activations, and a threshold that a loop of four turns passes. -/
def TierConfig.tight : TierConfig := { mode := .hybrid, hybridThreshold := 2, maxDepth := 6 }

open Program in
/-- In it there is room for the loops up to four, but not for the sum. -/
theorem programs_up_to_four :
    (∃ object machine after,
      dispatch.instantiate 4 (Machine.start .tight) = .ok object machine ∧
      Request.Ends ⟨.object object, "benchmark", []⟩ machine (.value (.integer 10)) after) ∧
    (∃ object machine after,
      loop.instantiate 4 (Machine.start .tight) = .ok object machine ∧
      Request.Ends ⟨.object object, "benchmark", []⟩ machine (.value (.integer 15)) after ∧
      after.heap.getField? object 0 = some (.integer 5)) ∧
    ∃ object machine after,
      sum.instantiate 4 (Machine.start .tight) = .ok object machine ∧
      Request.Ends ⟨.object object, "sum:", [.integer 4]⟩ machine
        (.failure (.error (.stackOverflow 7))) after := by
  have nonnegative : (0 : Int64) ≤ 4 := by decide
  have fits : (4 : Int64).toInt * ((4 : Int64).toInt + 1) ≤ Value.largestInteger := by decide
  have tooDeep : ¬2 * (4 : Int64).toInt - 1 ≤ TierConfig.tight.maxDepth := by decide
  obtain ⟨dispatch, loop, sum⟩ := built_in_programs_are_correct .tight 4 nonnegative fits
  have sum := sum (by decide)
  rw [if_neg tooDeep] at sum
  exact ⟨dispatch (by decide), loop (by decide), sum⟩

end ObjectMachine
