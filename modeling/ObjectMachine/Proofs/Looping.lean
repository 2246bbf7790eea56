/-
This file follows the loop that keeps its count in a field, and the loop below it that counts
an argument down. Before the turn of a number the field holds how many turns there were and a
local the sum of their numbers; counting down ends at zero, from wherever it starts.
-/

import ObjectMachine.Proofs.Dispatching
import ObjectMachine.Proofs.Storing

namespace ObjectMachine

namespace Looping

/-! ### Methods -/

/-- The start of the countdown is a literal of its own, unless it is the limit. -/
def code (shared : Bool) : Array UInt8 :=
  #[20, 34, 20, 73, 0, 0, 21, 17, 2, 59, 25, 0, 1, 73, 1, 0, 71, 0, 0, 71, 1, 0, 39, 1, 73, 0, 0,
    51, 0, 0, 49, 58, 22, 0, 24, 71, 0, 0, 52, 0, 0, 39, 1, 72, 0, 0] ++
    (if shared then #[17, 39, 2] else #[19, 39, 3]) ++ #[39, 1, 43]

def running (shared : Bool) (limit : Int) (name plus countdown : Symbol) : Method where
  signature := name
  code := code shared
  literals :=
    if shared then #[.ofInt limit, .symbol plus, .symbol countdown]
    else #[.ofInt limit, .symbol plus, .integer 10, .symbol countdown]
  scope := .outermost (.of [] [false, false] false)
  maxStack := 5
  catchesReturns := false
  isBlock := false

def countdownCode : Array UInt8 :=
  #[72, 1, 0, 20, 39, 0, 57, 13, 0, 72, 1, 0, 50, 74, 1, 0, 58, 16, 0, 72, 1, 0, 43]

def counting (name greater : Symbol) : Method where
  signature := name
  code := countdownCode
  literals := #[.symbol greater]
  scope := .outermost (.of [false] [] false)
  maxStack := 2
  catchesReturns := false
  isBlock := false

/-! ### Counting down -/

/-- The activation that counts down, with what is left to count. -/
def descent (object : InstanceId) (left : Int) (values : List Value) (offset : Nat) : Live where
  context := none
  catches := false
  activation := ⟨⟨1⟩, ⟨#[.object object, .ofInt left], none⟩, ⟨values, 2 - values.length⟩⟩
  offset := offset

section

variable {stage : Stage} {objects : Heap → Prop} {name greater : Symbol} {object : InstanceId}
  {depth : Nat} {waiting : List Waiting}
  (known : stage.methodAt ⟨1⟩ = counting name greater)
  (compares : stage.Provides CoreClass.integer.id greater (.comparison .greater))

include known compares

theorem test (left : Int) :
    Passage (stage.At objects depth) ⟨.turn .plain (descent object left [] 0), waiting⟩
      (stage.At objects depth)
      ⟨.turn .plain (descent object left [] (if 0 < left then 9 else 19)), waiting⟩ := by
  refine Passage.trans (.straight [.pushArgument 1 0, .pushZero] known
    (by decide : spelled? countdownCode 0 _ = some 4) rfl rfl) ?_
  refine Passage.trans (.reckons known (by decide :
    decodeAt countdownCode 4 = .ok (.send 0 .two, 2)) rfl rfl rfl compares
      (.compare .greater left 0) rfl) ?_
  rw [Comparison.greater_holds]
  refine .branches known (by decide :
    decodeAt countdownCode 6 = .ok (.jumpOnFalsePop 13, 3)) rfl rfl rfl ?_
  by_cases more : 0 < left
  · rw [decide_eq_true more, if_pos more]
    rfl
  · rw [decide_eq_false more, if_neg more]
    rfl

theorem descends (left : Int) (more : 0 < left) :
    Passage (stage.At objects depth) ⟨.turn .plain (descent object left [] 0), waiting⟩
      (stage.At objects depth) ⟨.turn .plain (descent object (left - 1) [] 0), waiting⟩ := by
  refine Passage.trans (test known compares left) ?_
  rw [if_pos more]
  refine Passage.trans (.straight [.pushArgument 1 0] known
    (by decide : spelled? countdownCode 9 _ = some 12) rfl rfl) ?_
  refine Passage.trans (.counts known (by decide :
    decodeAt countdownCode 12 = .ok (.dec, 1)) (.inr ⟨rfl, rfl, rfl⟩) rfl rfl) ?_
  refine Passage.trans (.straight [.popArgument 1 0] known
    (by decide : spelled? countdownCode 13 _ = some 16) rfl rfl) ?_
  exact .jumped known (by decide :
    decodeAt countdownCode 16 = .ok (.jumpBackward 16, 3)) (.inr ⟨_, rfl⟩) rfl rfl

theorem countsDown (left : Nat) :
    Passage (stage.At objects depth) ⟨.turn .plain (descent object left [] 0), waiting⟩
      (stage.At objects depth) ⟨.turn .plain (descent object 0 [] 19), waiting⟩ := by
  induction left with
  | zero => exact test known compares 0
  | succ left inductionHypothesis =>
    refine (descends known compares (left + 1 : Nat) (by omega)).trans ?_
    rw [show ((left + 1 : Nat) : Int) - 1 = left by omega]
    exact inductionHypothesis

/-- The method answers zero, whatever it counts down from. -/
theorem countedDown (start : Int) (nonnegative : 0 ≤ start) (room : depth < stage.maxDepth) :
    Passage (stage.At objects depth)
      ⟨.call ⟨.method ⟨1⟩, .object object, .one (.ofInt start)⟩, waiting⟩
      (stage.At objects depth) ⟨.answer (.ofInt 0), waiting⟩ := by
  obtain ⟨left, rfl⟩ := Int.eq_ofNat_of_zero_le nonnegative
  refine Passage.trans (.calls known (fun machine here => ⟨machine, here, rfl⟩) room rfl) ?_
  refine Passage.trans (countsDown known compares left) ?_
  refine Passage.trans (.straight [.pushArgument 1 0] known
    (by decide : spelled? countdownCode 19 _ = some 22) rfl rfl) ?_
  have decoded : decodeAt countdownCode 22 = .ok (.returnLocal, 1) := by decide
  exact .returns (fun _ same => same) known decoded rfl

end

/-! ### The loop -/

/-- The activation with the sum so far and the number added last. -/
def live (object : InstanceId) (sum last : Value) (values : List Value) (offset : Nat) :
    Live where
  context := none
  catches := false
  activation := ⟨⟨0⟩, ⟨#[.object object, sum, last], none⟩, ⟨values, 5 - values.length⟩⟩
  offset := offset

section

variable {stage : Stage} {shared : Bool} {limit : Int} {name plus countdown : Symbol}
  {cls : ClassId} {object : InstanceId} {depth : Nat} {waiting : List Waiting}
  (known : stage.methodAt ⟨0⟩ = running shared limit name plus countdown)
  (adds : stage.Provides CoreClass.integer.id plus (.arithmetic .add))

include known adds

theorem turn (i sum : Int) (last : Value) (below : i + 1 ≤ limit) :
    Passage (stage.At (Heap.Stores object cls 0 (.ofInt i)) depth)
      ⟨.turn .plain (live object (.ofInt sum) last
        [.ofInt (i + 1), .ofInt limit, .integer 1] 9), waiting⟩
      (stage.At (Heap.Stores object cls 0 (.ofInt (i + 1))) depth)
      ⟨.turn .plain (live object (.ofInt (sum + (i + 1))) (.ofInt (i + 1))
        [.ofInt (i + 1 + 1), .ofInt limit, .integer 1] 9), waiting⟩ := by
  have sums : Passage (stage.At (Heap.Stores object cls 0 (.ofInt i)) depth)
      ⟨.turn .plain (live object (.ofInt sum) last
        [.ofInt (i + 1), .ofInt limit, .integer 1] 9), waiting⟩
      (stage.At (Heap.Stores object cls 0 (.ofInt i)) depth)
      ⟨.turn .plain (live object (.ofInt (sum + (i + 1))) (.ofInt (i + 1))
        [.ofInt (i + 1), .ofInt limit, .integer 1] 27), waiting⟩ := by
    refine Passage.trans (.stays known (by cases shared <;> decide :
      decodeAt (code shared) 9 = .ok (.jumpIfGreater 25, 3)) rfl rfl below rfl) ?_
    refine Passage.trans (.straight [.dup, .popLocal 1 0, .pushLocal 0 0, .pushLocal 1 0] known
      (by cases shared <;> decide : spelled? (code shared) 12 _ = some 22) rfl rfl) ?_
    refine Passage.trans (.reckons known (by cases shared <;> decide :
      decodeAt (code shared) 22 = .ok (.send 1 .two, 2)) rfl (by cases shared <;> rfl) rfl adds
        (.add sum (i + 1)) rfl) ?_
    exact .straight [.popLocal 0 0] known
      (by cases shared <;> decide : spelled? (code shared) 24 _ = some 27) rfl rfl
  refine sums.trans ?_
  refine Passage.trans (.tallies known (by cases shared <;> decide :
    decodeAt (code shared) 27 = .ok (.incField 0 0, 3)) rfl rfl rfl rfl) ?_
  refine Passage.trans (.counts known (by cases shared <;> decide :
    decodeAt (code shared) 30 = .ok (.inc, 1)) (.inl ⟨rfl, rfl, rfl⟩) rfl rfl) ?_
  exact .jumped known (by cases shared <;> decide :
    decodeAt (code shared) 31 = .ok (.jumpBackward 22, 3)) (.inr ⟨_, rfl⟩) rfl rfl

variable (depth waiting) in
/-- From the turn of a number the loop goes on to the sum up to the limit. -/
theorem loop (left : Nat) {i : Int} (last : Value) (reaches : i + left = limit) :
    ∃ final, Passage (stage.At (Heap.Stores object cls 0 (.ofInt i)) depth)
      ⟨.turn .plain (live object (.ofInt (triangleNumber i)) last
        [.ofInt (i + 1), .ofInt limit, .integer 1] 9), waiting⟩
      (stage.At (Heap.Stores object cls 0 (.ofInt limit)) depth)
      ⟨.turn .plain (live object (.ofInt (triangleNumber limit)) final [.integer 1] 34),
        waiting⟩ := by
  obtain ⟨final, goes⟩ := Passage.sums (fun i sum last below =>
    turn known adds i sum last below) left last reaches
  exact ⟨final, goes.trans (.leaves known (by cases shared <;> decide :
    decodeAt (code shared) 9 = .ok (.jumpIfGreater 25, 3)) rfl rfl (by omega) rfl rfl)⟩

omit adds in
theorem starts {old : Value} (room : depth < stage.maxDepth) :
    Passage (stage.At (Heap.Stores object cls 0 old) depth)
      ⟨.call ⟨.method ⟨0⟩, .object object, .many []⟩, waiting⟩
      (stage.At (Heap.Stores object cls 0 (.ofInt 0)) (depth + 1))
      ⟨.turn .plain (live object (.ofInt 0) .nil [.ofInt 1, .ofInt limit, .integer 1] 9),
        waiting⟩ := by
  refine Passage.trans (.calls known (fun machine here => ⟨machine, here, rfl⟩) room rfl) ?_
  refine Passage.trans (.straight [.pushZero] known
    (by cases shared <;> decide : spelled? (code shared) 0 _ = some 1) rfl rfl) ?_
  refine Passage.trans (.stores known (by cases shared <;> decide :
    decodeAt (code shared) 1 = .ok (.popField 0 0, 1)) rfl rfl rfl rfl rfl) ?_
  exact .straight [.pushZero, .popLocal 0 0, .pushOne, .pushConstant 0, .dupSecond] known
    (by cases shared <;> decide : spelled? (code shared) 2 _ = some 9)
    (by cases shared <;> rfl) rfl

/-- What is left after the loop: the count is stored and added, and so is the end of a countdown. -/
theorem ends {n sum : Int} {last : Value} {greater nameOfCountdown : Symbol}
    (counts : stage.methodAt ⟨1⟩ = counting nameOfCountdown greater)
    (understands : stage.Understands cls countdown ⟨1⟩)
    (compares : stage.Provides CoreClass.integer.id greater (.comparison .greater))
    (nonnegative : 0 ≤ limit) (room : depth + 1 < stage.maxDepth) :
    Passage (stage.At (Heap.Stores object cls 0 (.ofInt n)) (depth + 1))
      ⟨.turn .plain (live object (.ofInt sum) last [.integer 1] 34), waiting⟩
      (stage.At (Heap.Stores object cls 0 (.ofInt (n + 1))) depth)
      ⟨.answer (.ofInt (sum + (n + 1))), waiting⟩ := by
  have counted : Passage (stage.At (Heap.Stores object cls 0 (.ofInt n)) (depth + 1))
      ⟨.turn .plain (live object (.ofInt sum) last [.integer 1] 34), waiting⟩
      (stage.At (Heap.Stores object cls 0 (.ofInt (n + 1))) (depth + 1))
      ⟨.turn .plain (live object (.ofInt sum) last [.ofInt (sum + (n + 1))] 43), waiting⟩ := by
    refine Passage.trans (.straight [.pop, .pushLocal 0 0] known
      (by cases shared <;> decide : spelled? (code shared) 34 _ = some 38) rfl rfl) ?_
    refine Passage.trans (.talliesOnto known (by cases shared <;> decide :
      decodeAt (code shared) 38 = .ok (.incFieldPush 0 0, 3)) rfl rfl rfl rfl rfl) ?_
    exact .reckons known (by cases shared <;> decide :
      decodeAt (code shared) 41 = .ok (.send 1 .two, 2)) rfl (by cases shared <;> rfl) rfl adds
        (.add sum (n + 1)) rfl
  have pushes : Passage (stage.At (Heap.Stores object cls 0 (.ofInt (n + 1))) (depth + 1))
      ⟨.turn .plain (live object (.ofInt sum) last [.ofInt (sum + (n + 1))] 43), waiting⟩
      (stage.At (Heap.Stores object cls 0 (.ofInt (n + 1))) (depth + 1))
      ⟨.turn .plain (live object (.ofInt sum) last
        [.ofInt (if shared then limit else 10), .object object, .ofInt (sum + (n + 1))] 47),
        waiting⟩ := by
    cases shared with
    | true =>
      exact .straight [.pushArgument 0 0, .pushConstant 0] known
        (by decide : spelled? (code true) 43 _ = some 47) rfl rfl
    | false =>
      exact .straight [.pushArgument 0 0, .pushConstant 2] known
        (by decide : spelled? (code false) 43 _ = some 47) rfl rfl
  refine (counted.trans pushes).trans ?_
  refine Passage.trans (.asks known (by cases shared <;> decide :
    decodeAt (code shared) 47 = .ok (.send (if shared then 2 else 3) .two, 2)) rfl
      (by cases shared <;> rfl) rfl (fun _ here => ⟨here.objects.current, here.objects.owner⟩)
      understands rfl rfl) ?_
  refine Passage.trans (countedDown counts compares _ (by split <;> omega) room) ?_
  refine Passage.trans (.resumes rfl rfl) ?_
  refine Passage.trans (.reckons known (by cases shared <;> decide :
    decodeAt (code shared) 49 = .ok (.send 1 .two, 2)) rfl (by cases shared <;> rfl) rfl adds
      (.add (sum + (n + 1)) 0) rfl) ?_
  rw [Int.add_zero]
  have decoded : decodeAt (code shared) 51 = .ok (.returnLocal, 1) := by
    cases shared <;> decide
  exact .returns (fun _ same => same) known decoded rfl

/-- The method answers the sum of the integers up to its limit and one more than the limit,
which it leaves in the field. -/
theorem answers {greater nameOfCountdown : Symbol} {old : Value}
    (counts : stage.methodAt ⟨1⟩ = counting nameOfCountdown greater)
    (understands : stage.Understands cls countdown ⟨1⟩)
    (compares : stage.Provides CoreClass.integer.id greater (.comparison .greater))
    (nonnegative : 0 ≤ limit) (room : depth + 1 < stage.maxDepth) :
    Passage (stage.At (Heap.Stores object cls 0 old) depth)
      ⟨.call ⟨.method ⟨0⟩, .object object, .many []⟩, waiting⟩
      (stage.At (Heap.Stores object cls 0 (.ofInt (limit + 1))) depth)
      ⟨.answer (.ofInt (triangleNumber limit + (limit + 1))), waiting⟩ := by
  obtain ⟨final, goes⟩ := loop (depth + 1) waiting known adds limit.toNat .nil
    (show 0 + (limit.toNat : Int) = limit by omega)
  exact ((starts known (by omega)).trans goes).trans
    (ends known adds counts understands compares nonnegative room)

end

end Looping

end ObjectMachine
