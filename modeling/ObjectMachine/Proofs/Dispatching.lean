/-
This file follows the loop that sends a message at every turn. Before the turn of a number the
sum of all smaller ones is in a local; the message answers its argument, so a turn adds the
number. Nothing is asked of the machine but room for one more activation.
-/

import ObjectMachine.Proofs.Reckoning

namespace ObjectMachine

/-- The sum of the integers from one to a number that is not negative. -/
def triangleNumber (n : Int) : Int := n * (n + 1) / 2

theorem triangleNumber_add (n : Int) :
    triangleNumber n + (n + 1) = triangleNumber (n + 1) := by
  have split : (n + 1) * (n + 1 + 1) = n * (n + 1) + (n + 1) * 2 := by ring
  rw [triangleNumber, triangleNumber, split, Int.add_mul_ediv_right _ _ (by decide)]

/-- Turns that each add the next number to a sum lead on to the sum up to a limit. -/
theorem Passage.sums {here : Int → Machine → Prop} {point : Int → Int → Value → Point}
    {limit : Int}
    (turn : ∀ i sum last, i + 1 ≤ limit → Passage (here i) (point i sum last) (here (i + 1))
      (point (i + 1) (sum + (i + 1)) (.ofInt (i + 1))))
    (left : Nat) {i : Int} (last : Value) (reaches : i + left = limit) :
    ∃ final, Passage (here i) (point i (triangleNumber i) last) (here limit)
      (point limit (triangleNumber limit) final) := by
  induction left generalizing i last with
  | zero =>
    obtain rfl : i = limit := by omega
    exact ⟨last, .here⟩
  | succ left inductionHypothesis =>
    obtain ⟨final, goes⟩ :=
      inductionHypothesis (.ofInt (i + 1)) (show i + 1 + left = limit by omega)
    rw [← triangleNumber_add] at goes
    exact ⟨final, (turn i _ last (by omega)).trans goes⟩

namespace Dispatching

/-! ### Methods -/

def forwarding (name : Symbol) : Method where
  signature := name
  code := #[72, 1, 0, 43]
  literals := #[]
  scope := .outermost (.of [false] [] false)
  maxStack := 1
  catchesReturns := false
  isBlock := false

def code : Array UInt8 :=
  #[20, 73, 0, 0, 21, 17, 2, 59, 29, 0, 1, 73, 1, 0, 71, 0, 0, 72, 0, 0, 71, 1, 0, 39, 1, 39, 2, 1,
    73, 0, 0, 24, 49, 58, 26, 0, 24, 71, 0, 0, 43]

def adding (limit : Int) (name forward plus : Symbol) : Method where
  signature := name
  code := code
  literals := #[.ofInt limit, .symbol forward, .symbol plus]
  scope := .outermost (.of [] [false, false] false)
  maxStack := 6
  catchesReturns := false
  isBlock := false

/-! ### The loop -/

/-- The activation with the sum so far and the number added last. -/
def live (object : InstanceId) (sum last : Value) (values : List Value) (offset : Nat) :
    Live where
  context := none
  catches := false
  activation := ⟨⟨1⟩, ⟨#[.object object, sum, last], none⟩, ⟨values, 6 - values.length⟩⟩
  offset := offset

section

variable {stage : Stage} {limit : Int} {name forward plus : Symbol} {cls : ClassId}
  {object : InstanceId} {depth : Nat} {waiting : List Waiting}
  (forwards : stage.methodAt ⟨0⟩ = forwarding forward)
  (known : stage.methodAt ⟨1⟩ = adding limit name forward plus)
  (understands : stage.Understands cls forward ⟨0⟩)
  (adds : stage.Provides CoreClass.integer.id plus (.arithmetic .add))

include forwards in
/-- The message answers its argument. -/
theorem forwarded (value : Value) (room : depth < stage.maxDepth) :
    Passage (stage.At (Heap.UpToDate object cls) depth)
      ⟨.call ⟨.method ⟨0⟩, .object object, .one value⟩, waiting⟩
      (stage.At (Heap.UpToDate object cls) depth) ⟨.answer value, waiting⟩ := by
  refine Passage.trans (.calls forwards (fun machine here => ⟨machine, here, rfl⟩) room rfl) ?_
  refine Passage.trans (.straight [.pushArgument 1 0] forwards
    (by decide : spelled? #[72, 1, 0, 43] 0 _ = some 3) rfl rfl) ?_
  have decoded : decodeAt #[72, 1, 0, 43] 3 = .ok (.returnLocal, 1) := by decide
  exact .returns (fun _ same => same) forwards decoded rfl

include forwards known understands adds

theorem turn (i sum : Int) (last : Value) (below : i ≤ limit)
    (room : depth + 1 < stage.maxDepth) :
    Passage (stage.At (Heap.UpToDate object cls) (depth + 1))
      ⟨.turn .plain (live object (.ofInt sum) last
        [.ofInt i, .ofInt limit, .integer 1] 7), waiting⟩
      (stage.At (Heap.UpToDate object cls) (depth + 1))
      ⟨.turn .plain (live object (.ofInt (sum + i)) (.ofInt i)
        [.ofInt (i + 1), .ofInt limit, .integer 1] 7), waiting⟩ := by
  refine Passage.trans (.stays known (by decide :
    decodeAt code 7 = .ok (.jumpIfGreater 29, 3)) rfl rfl below rfl) ?_
  refine Passage.trans (.straight [.dup, .popLocal 1 0, .pushLocal 0 0, .pushArgument 0 0,
    .pushLocal 1 0] known (by decide : spelled? code 10 _ = some 23) rfl rfl) ?_
  refine Passage.trans (.asks known (by decide :
    decodeAt code 23 = .ok (.send 1 .two, 2)) rfl rfl rfl (fun _ here => here.objects)
      understands rfl rfl) ?_
  refine Passage.trans (forwarded forwards (.ofInt i) room) ?_
  refine Passage.trans (.resumes rfl rfl) ?_
  refine Passage.trans (.reckons known (by decide :
    decodeAt code 25 = .ok (.send 2 .two, 2)) rfl rfl rfl adds (.add sum i) rfl) ?_
  refine Passage.trans (.straight [.dup, .popLocal 0 0, .pop] known
    (by decide : spelled? code 27 _ = some 32) rfl rfl) ?_
  refine Passage.trans (.counts known (by decide :
    decodeAt code 32 = .ok (.inc, 1)) (.inl ⟨rfl, rfl, rfl⟩) rfl rfl) ?_
  exact .jumped known (by decide : decodeAt code 33 = .ok (.jumpBackward 26, 3))
    (.inr ⟨_, rfl⟩) rfl rfl

variable (waiting) in
/-- From the turn of a number the loop goes on to the sum up to the limit. -/
theorem loop (left : Nat) {i : Int} (last : Value) (reaches : i + left = limit)
    (room : depth + 1 < stage.maxDepth) :
    ∃ final, Passage (stage.At (Heap.UpToDate object cls) (depth + 1))
      ⟨.turn .plain (live object (.ofInt (triangleNumber i)) last
        [.ofInt (i + 1), .ofInt limit, .integer 1] 7), waiting⟩
      (stage.At (Heap.UpToDate object cls) (depth + 1))
      ⟨.turn .plain (live object (.ofInt (triangleNumber limit)) final [.integer 1] 36),
        waiting⟩ := by
  obtain ⟨final, goes⟩ := Passage.sums (fun i sum last below =>
    turn forwards known understands adds (i + 1) sum last below room) left last reaches
  exact ⟨final, goes.trans (.leaves known (by decide :
    decodeAt code 7 = .ok (.jumpIfGreater 29, 3)) rfl rfl (by omega) rfl rfl)⟩

/-- The method answers the sum of the integers up to its limit. -/
theorem answers (nonnegative : 0 ≤ limit) (room : depth + 1 < stage.maxDepth) :
    Passage (stage.At (Heap.UpToDate object cls) depth)
      ⟨.call ⟨.method ⟨1⟩, .object object, .many []⟩, waiting⟩
      (stage.At (Heap.UpToDate object cls) depth)
      ⟨.answer (.ofInt (triangleNumber limit)), waiting⟩ := by
  refine Passage.trans (.calls known (fun machine here => ⟨machine, here, rfl⟩) (by omega) rfl) ?_
  refine Passage.trans (.straight [.pushZero, .popLocal 0 0, .pushOne, .pushConstant 0, .dupSecond]
    known (by decide : spelled? code 0 _ = some 7) rfl rfl) ?_
  obtain ⟨final, goes⟩ := loop waiting forwards known understands adds limit.toNat .nil
    (show 0 + (limit.toNat : Int) = limit by omega) room
  refine Passage.trans goes ?_
  refine Passage.trans (.straight [.pop, .pushLocal 0 0] known
    (by decide : spelled? code 36 _ = some 40) rfl rfl) ?_
  have decoded : decodeAt code 40 = .ok (.returnLocal, 1) := by decide
  exact .returns (fun _ same => same) known decoded rfl

end

end Dispatching

end ObjectMachine
