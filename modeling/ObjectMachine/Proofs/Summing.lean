/-
This file follows the recursion that adds through a block. A sum calls a block and the block
the sum of one number less, so every number above one takes two activations and the last one
takes one. With room for them the sum is answered; without it the call for which there is no
room fails, and its error ends all that wait for it.
-/

import ObjectMachine.Proofs.Dispatching
import ObjectMachine.Proofs.Nesting

namespace ObjectMachine

namespace Summing

/-! ### Methods -/

def scope : Scope := .outermost (.of [true] [] true)

def blockCode : Array UInt8 :=
  #[72, 1, 1, 72, 0, 1, 72, 1, 1, 21, 39, 0, 39, 1, 39, 2, 43]

def block (name minus recur plus : Symbol) : Method where
  signature := name
  code := blockCode
  literals := #[.symbol minus, .symbol recur, .symbol plus]
  scope := scope.nested (.of [] [] false)
  maxStack := 4
  catchesReturns := false
  isBlock := true

def code : Array UInt8 := #[72, 1, 0, 21, 39, 0, 21, 14, 1, 40, 2, 43]

def summing (name atMost choose : Symbol) : Method where
  signature := name
  code := code
  literals := #[.symbol atMost, .invokable (.method ⟨0⟩), .symbol choose]
  scope := scope
  maxStack := 3
  catchesReturns := false
  isBlock := false

/-! ### Heaps -/

/-- What the block captures: the receiver and the number. -/
def captured (object : InstanceId) (n : Int) : Context := ⟨true, #[.object object, .ofInt n]⟩

/-- The heap in which the sum of a number runs. -/
def entered (object : InstanceId) (n : Int) (heap : Heap) : Heap :=
  (heap.addContext (captured object n)).2

/-- The heap in which the block of the sum runs. -/
def enclosed (object : InstanceId) (n : Int) (heap : Heap) : Heap :=
  ((entered object n heap).addBlock ⟨⟨0⟩, some heap.contexts.next⟩).2

theorem get_captured (object : InstanceId) (n : Int) (heap : Heap) :
    (entered object n heap).contexts.get heap.contexts.next = captured object n :=
  Table.get_add_next _ _

theorem get_enclosed (object : InstanceId) (n : Int) (heap : Heap) :
    (enclosed object n heap).blocks.get heap.blocks.next = ⟨⟨0⟩, some heap.contexts.next⟩ :=
  Table.get_add_next _ _

/-! ### Activations -/

/-- The activation of the sum, whose context is the first that the heap does not have. -/
def live (object : InstanceId) (heap : Heap) (values : List Value) (offset : Nat) : Live where
  context := some heap.contexts.next
  catches := false
  activation :=
    ⟨⟨1⟩, ⟨#[.object object], some heap.contexts.next⟩, ⟨values, 3 - values.length⟩⟩
  offset := offset

/-- The activation of the block. -/
def inner (heap : Heap) (values : List Value) (offset : Nat) : Live where
  context := none
  catches := false
  activation := ⟨⟨0⟩, ⟨#[.block heap.blocks.next], none⟩, ⟨values, 4 - values.length⟩⟩
  offset := offset

section

variable {stage : Stage} {heap : Heap} {object : InstanceId} {cls : ClassId} {depth : Nat}
  {waiting : List Waiting} {n : Int} {name atMost choose : Symbol} {arguments : Arguments}
  (sums : stage.methodAt ⟨1⟩ = summing name atMost choose)

section

variable (settled : arguments.settled = .one (.ofInt n))

include settled

/-- The number goes to the context, since the block captures it. -/
theorem created {machine : Machine} (here : stage.At (· = heap) depth machine) :
    ∃ later, stage.At (· = entered object n heap) depth later ∧
      Frame.create (summing name atMost choose) (.object object) arguments.settled machine =
        .ok ⟨#[.object object], some heap.contexts.next⟩ later := by
  obtain rfl : machine.heap.unlearned = heap := here.objects
  rw [settled]
  have added : stage.At (· = (machine.heap.unlearned.addContext (.start 2 (.object object))).2)
      depth (machine.change (.addContext (.start 2 (.object object)))) := here.changed trivial rfl
  have placed : Change.Allowed (machine.change (.addContext (.start 2 (.object object)))).heap
      (.setContextSlot machine.heap.contexts.next 1 (.ofInt n)) := trivial
  refine ⟨_, added.changed placed ?_, rfl⟩
  have rows : (machine.heap.contexts.add (.start 2 (.object object))).modify
      machine.heap.contexts.next
        (fun row => { row with slots := row.slots.setIfInBounds 1 (.ofInt n) }) =
      machine.heap.contexts.add (captured object n) := Table.modify_add_next _ _ _
  exact congrArg (fun contexts => { machine.heap.unlearned with contexts }) rows

variable (compares : stage.Provides CoreClass.integer.id atMost (.comparison .lessOrEqual))

include sums compares

/-- A number is compared with one. -/
theorem tests (room : depth < stage.maxDepth) :
    Passage (stage.At (· = heap) depth) ⟨.call ⟨.method ⟨1⟩, .object object, arguments⟩, waiting⟩
      (stage.At (· = entered object n heap) (depth + 1))
      ⟨.turn .plain (live object heap [.bool (decide (n ≤ 1))] 6), waiting⟩ := by
  have recalled : Passage (stage.At (· = entered object n heap) (depth + 1))
      ⟨.turn .plain (live object heap [] 0), waiting⟩
      (stage.At (· = entered object n heap) (depth + 1))
      ⟨.turn .plain (live object heap [.ofInt n] 3), waiting⟩ := by
    refine .recalls sums (by decide : decodeAt code 0 = .ok (.pushArgument 1 0, 3)) rfl rfl
      (fun machine here => ⟨heap.contexts.next, rfl, ?_⟩) rfl rfl
    have same : machine.heap.contexts = (entered object n heap).contexts :=
      (congrArg Heap.contexts here.objects :)
    rw [same, get_captured]
    rfl
  refine Passage.trans (.calls sums (fun _ => created settled) room rfl) (recalled.trans ?_)
  refine Passage.trans (.straight [.pushOne] sums
    (by decide : spelled? code 3 _ = some 4) rfl rfl) ?_
  rw [← Comparison.lessOrEqual_holds]
  exact .reckons sums (by decide : decodeAt code 4 = .ok (.send 0 .two, 2)) rfl rfl rfl
    compares (.compare .lessOrEqual n 1) rfl

end

/-! ### The choice -/

section

include sums

/-- One and the block are what a condition chooses from. -/
theorem offers (truth : Bool) :
    Passage (stage.At (· = entered object n heap) depth)
      ⟨.turn .plain (live object heap [.bool truth] 6), waiting⟩
      (stage.At (· = enclosed object n heap) depth)
      ⟨.turn .plain (live object heap [.block heap.blocks.next, .integer 1, .bool truth] 9),
        waiting⟩ :=
  .trans (.straight [.pushOne] sums (by decide : spelled? code 6 _ = some 7) rfl rfl)
    (.encloses sums (by decide : decodeAt code 7 = .ok (.pushBlock 1 true, 2)) rfl rfl rfl
      rfl)

theorem stops (chooses : stage.Provides CoreClass.true.id choose .ifTrueIfFalse) :
    Passage (stage.At (· = entered object n heap) (depth + 1))
      ⟨.turn .plain (live object heap [.bool true] 6), waiting⟩
      (stage.At (fun _ => True) depth) ⟨.answer (.integer 1), waiting⟩ := by
  refine (offers sums true).trans ?_
  refine Passage.trans (.chooses sums (by decide :
    decodeAt code 9 = .ok (.send 2 .three, 2)) rfl rfl rfl (fun _ same => by cases same) chooses
      rfl) ?_
  have decoded : decodeAt code 11 = .ok (.returnLocal, 1) := by decide
  exact .returns (fun _ _ => trivial) sums decoded rfl

variable {nameOfBlock minus recur plus : Symbol}
  (nests : stage.methodAt ⟨0⟩ = block nameOfBlock minus recur plus)

include nests

theorem descends (chooses : stage.Provides CoreClass.false.id choose .ifTrueIfFalse) :
    Passage (stage.At (· = entered object n heap) depth)
      ⟨.turn .plain (live object heap [.bool false] 6), waiting⟩
      (stage.At (· = enclosed object n heap) depth)
      ⟨.call ⟨.method ⟨0⟩, .block heap.blocks.next, .none⟩,
        .operation .pass :: .activation .plain (live object heap [] 9) 11 .push :: waiting⟩ := by
  refine (offers sums false).trans ?_
  refine .evaluates sums (by decide : decodeAt code 9 = .ok (.send 2 .three, 2)) rfl rfl rfl
    chooses (fun machine here => ?_) (by rw [nests]; rfl) rfl rfl
  have same : machine.heap.blocks = (enclosed object n heap).blocks :=
    (congrArg Heap.blocks here.objects :)
  rw [same, get_enclosed]

end

/-! ### The block -/

section

variable {nameOfBlock minus recur plus : Symbol}
  (nests : stage.methodAt ⟨0⟩ = block nameOfBlock minus recur plus)

/-- From the block the context of its activation is one level out. -/
theorem reaches (slot : Nat) {value : Value}
    (held : (captured object n).slots[slot]? = some value) (values : List Value) (offset : Nat)
    (machine : Machine) (here : stage.At (· = enclosed object n heap) depth machine) :
    ∃ context, (inner heap values offset).activation.frame.contextAt 1 machine =
        .ok context machine ∧ (machine.heap.contexts.get context).slots[slot]? = some value := by
  have blocks : machine.heap.blocks = (enclosed object n heap).blocks :=
    (congrArg Heap.blocks here.objects :)
  have contexts : machine.heap.contexts = (entered object n heap).contexts :=
    (congrArg Heap.contexts here.objects :)
  have around : (inner heap values offset).activation.frame.blockAt 1 machine =
      .ok heap.blocks.next machine := rfl
  have read : Engine.heapValue (fun later => (later.blocks.get heap.blocks.next).context) machine =
      .ok (some heap.contexts.next) machine := by
    show EStateM.Result.ok (machine.heap.blocks.get heap.blocks.next).context machine = _
    rw [blocks, get_enclosed]
  refine ⟨heap.contexts.next, ?_, ?_⟩
  · rw [Frame.contextAt, if_neg (by decide), Engine.bind_of_ok around, Engine.bind_of_ok read]
    rfl
  · rw [contexts, get_captured]
    exact held

include nests

/-- The block asks its receiver for the sum of one number less. -/
theorem recurs (subtracts : stage.Provides CoreClass.integer.id minus (.arithmetic .sub))
    (understands : stage.Understands cls recur ⟨1⟩) (current : heap.UpToDate object cls)
    (room : depth < stage.maxDepth) :
    Passage (stage.At (· = enclosed object n heap) depth)
      ⟨.call ⟨.method ⟨0⟩, .block heap.blocks.next, .none⟩, waiting⟩
      (stage.At (· = enclosed object n heap) (depth + 1))
      ⟨.call ⟨.method ⟨1⟩, .object object, .one (.ofInt (n - 1))⟩,
        .activation .plain (inner heap [.ofInt n] 12) 14 .push :: waiting⟩ := by
  have first : Passage (stage.At (· = enclosed object n heap) depth)
      ⟨.call ⟨.method ⟨0⟩, .block heap.blocks.next, .none⟩, waiting⟩
      (stage.At (· = enclosed object n heap) (depth + 1))
      ⟨.turn .plain (inner heap [.ofInt n] 3), waiting⟩ :=
    .trans (.calls nests (fun machine here => ⟨machine, here, rfl⟩) room rfl)
      (.recalls nests (by decide : decodeAt blockCode 0 = .ok (.pushArgument 1 1, 3)) rfl rfl
        (reaches 1 rfl [] 0) rfl rfl)
  have second : Passage (stage.At (· = enclosed object n heap) (depth + 1))
      ⟨.turn .plain (inner heap [.ofInt n] 3), waiting⟩
      (stage.At (· = enclosed object n heap) (depth + 1))
      ⟨.turn .plain (inner heap [.ofInt n, .object object, .ofInt n] 9), waiting⟩ :=
    .trans (.recalls nests (by decide : decodeAt blockCode 3 = .ok (.pushArgument 0 1, 3))
        rfl rfl (reaches 0 rfl [.ofInt n] 3) rfl rfl)
      (.recalls nests (by decide : decodeAt blockCode 6 = .ok (.pushArgument 1 1, 3))
        rfl rfl (reaches 1 rfl [.object object, .ofInt n] 6) rfl rfl)
  refine (first.trans second).trans ?_
  refine Passage.trans (.straight [.pushOne] nests
    (by decide : spelled? blockCode 9 _ = some 10) rfl rfl) ?_
  refine Passage.trans (.reckons nests (by decide :
    decodeAt blockCode 10 = .ok (.send 0 .two, 2)) rfl rfl rfl subtracts (.sub n 1) rfl) ?_
  refine .asks nests (by decide : decodeAt blockCode 12 = .ok (.send 1 .two, 2)) rfl rfl rfl
    (fun machine here => ?_) understands rfl rfl
  have instances : machine.heap.instances = heap.instances :=
    (congrArg Heap.instances here.objects :)
  have shapes : machine.heap.shapes = heap.shapes := (congrArg Heap.shapes here.objects :)
  have stale : machine.heap.isStale object = heap.isStale object := by
    simp only [Heap.isStale, Heap.shapeOfInstance, instances, shapes]
  have owner : machine.heap.ownerOf object = heap.ownerOf object := by
    simp only [Heap.ownerOf, instances]
  exact ⟨stale.trans current.1, owner.trans current.2⟩

/-- The block answers its number added to the answer it has waited for. -/
theorem adds {objects : Heap → Prop} {sum : Int}
    (adds : stage.Provides CoreClass.integer.id plus (.arithmetic .add)) :
    Passage (stage.At objects (depth + 1))
      ⟨.answer (.ofInt sum), .activation .plain (inner heap [.ofInt n] 12) 14 .push :: waiting⟩
      (stage.At (fun _ => True) depth) ⟨.answer (.ofInt (n + sum)), waiting⟩ := by
  refine Passage.trans (.resumes rfl rfl) ?_
  refine Passage.trans (.reckons nests (by decide :
    decodeAt blockCode 14 = .ok (.send 2 .two, 2)) rfl rfl rfl adds (.add n sum) rfl) ?_
  have decoded : decodeAt blockCode 16 = .ok (.returnLocal, 1) := by decide
  exact .returns (fun _ _ => trivial) nests decoded rfl

end

/-! ### The recursion -/

section

variable {nameOfBlock minus recur plus : Symbol}
  (nests : stage.methodAt ⟨0⟩ = block nameOfBlock minus recur plus)
  (compares : stage.Provides CoreClass.integer.id atMost (.comparison .lessOrEqual))
  (chooses : ∀ truth : Bool, stage.Provides
    (if truth then CoreClass.true.id else CoreClass.false.id) choose .ifTrueIfFalse)
  (subtracts : stage.Provides CoreClass.integer.id minus (.arithmetic .sub))
  (understands : stage.Understands cls recur ⟨1⟩)

include sums in
/-- The sum answers what its block has answered. -/
theorem finishes {objects : Heap → Prop} (value : Value) :
    Passage (stage.At objects (depth + 1))
      ⟨.answer value,
        .operation .pass :: .activation .plain (live object heap [] 9) 11 .push :: waiting⟩
      (stage.At (fun _ => True) depth) ⟨.answer value, waiting⟩ := by
  refine Passage.trans (.passes value) (Passage.trans (.resumes rfl rfl) ?_)
  have decoded : decodeAt code 11 = .ok (.returnLocal, 1) := by decide
  exact .returns (fun _ _ => trivial) sums decoded rfl

include sums nests compares chooses subtracts understands

/-- A sum of more than one number is the number and the sum of the others. -/
theorem asksOn (more : 1 < n) (settled : arguments.settled = .one (.ofInt n))
    (current : heap.UpToDate object cls) (room : depth + 1 < stage.maxDepth) :
    Passage (stage.At (· = heap) depth) ⟨.call ⟨.method ⟨1⟩, .object object, arguments⟩, waiting⟩
      (stage.At (· = enclosed object n heap) (depth + 2))
      ⟨.call ⟨.method ⟨1⟩, .object object, .one (.ofInt (n - 1))⟩,
        .activation .plain (inner heap [.ofInt n] 12) 14 .push :: .operation .pass ::
          .activation .plain (live object heap [] 9) 11 .push :: waiting⟩ := by
  refine (tests sums settled compares (by omega)).trans ?_
  rw [decide_eq_false (by omega)]
  exact (descends sums nests (chooses false)).trans
    (recurs nests subtracts understands current room)

theorem answers (adds : stage.Provides CoreClass.integer.id plus (.arithmetic .add)) (left : Nat)
    (count : n = left + 1) (settled : arguments.settled = .one (.ofInt n))
    (current : heap.UpToDate object cls) (room : depth + (2 * left + 1) ≤ stage.maxDepth) :
    Passage (stage.At (· = heap) depth) ⟨.call ⟨.method ⟨1⟩, .object object, arguments⟩, waiting⟩
      (stage.At (fun _ => True) depth) ⟨.answer (.ofInt (triangleNumber n)), waiting⟩ := by
  induction left generalizing n heap depth waiting arguments with
  | zero =>
    obtain rfl : n = 1 := by omega
    exact (tests sums settled compares (by omega)).trans (stops sums (chooses true))
  | succ left inductionHypothesis =>
    refine (asksOn sums nests compares chooses subtracts understands (by omega) settled current
      (by omega)).trans ?_
    refine Passage.trans (inductionHypothesis (by omega) rfl current (by omega)) ?_
    refine (Summing.adds nests adds).trans ?_
    have next := triangleNumber_add (n - 1)
    rw [Int.sub_add_cancel, Int.add_comm] at next
    rw [next]
    exact finishes sums _

omit nests compares chooses subtracts understands in
/-- Without room for its activation the sum fails. -/
theorem failsAtOnce (settled : arguments.settled = .one (.ofInt n))
    (full : depth = stage.maxDepth) :
    Passage (stage.At (· = heap) depth) ⟨.call ⟨.method ⟨1⟩, .object object, arguments⟩, waiting⟩
      (stage.At (fun _ => True) depth)
      ⟨.fail (.error (.stackOverflow (stage.maxDepth + 1))), waiting⟩ := by
  subst full
  have frames (machine : Machine) (here : stage.At (· = heap) stage.maxDepth machine) :
      ∃ later, stage.At (fun _ => True) stage.maxDepth later ∧
        Frame.create (summing name atMost choose) (.object object) arguments.settled machine =
          .ok ⟨#[.object object], some heap.contexts.next⟩ later := by
    obtain ⟨later, there, made⟩ := created settled here
    exact ⟨later, there.imp fun _ _ => trivial, made⟩
  exact .overflows sums frames (Nat.le_refl _)

omit compares chooses subtracts understands sums in
/-- Without room for the block the sum fails. -/
theorem failsInBlock (full : depth + 1 = stage.maxDepth) :
    Passage (stage.At (· = enclosed object n heap) (depth + 1))
      ⟨.call ⟨.method ⟨0⟩, .block heap.blocks.next, .none⟩,
        .operation .pass :: .activation .plain (live object heap [] 9) 11 .push :: waiting⟩
      (stage.At (fun _ => True) depth)
      ⟨.fail (.error (.stackOverflow (stage.maxDepth + 1))), waiting⟩ := by
  rw [← full]
  refine Passage.trans (.overflows nests (fun machine here => ⟨machine, here, rfl⟩) (by omega)) ?_
  exact Passage.trans (.abandons _ _) (.unwinds (fun _ _ => trivial) _)

/-- Where the limit leaves no room for all activations, the first one for which there is none
fails. -/
theorem overflows (left : Nat) (count : n = left + 1)
    (settled : arguments.settled = .one (.ofInt n)) (current : heap.UpToDate object cls)
    (deep : depth ≤ stage.maxDepth) (full : stage.maxDepth < depth + (2 * left + 1)) :
    Passage (stage.At (· = heap) depth) ⟨.call ⟨.method ⟨1⟩, .object object, arguments⟩, waiting⟩
      (stage.At (fun _ => True) depth)
      ⟨.fail (.error (.stackOverflow (stage.maxDepth + 1))), waiting⟩ := by
  induction left generalizing n heap depth waiting arguments with
  | zero => exact failsAtOnce sums settled (by omega)
  | succ left inductionHypothesis =>
    rcases Nat.lt_trichotomy stage.maxDepth (depth + 1) with atOnce | inBlock | further
    · exact failsAtOnce sums settled (by omega)
    · refine (tests sums settled compares (by omega)).trans ?_
      rw [decide_eq_false (by omega)]
      exact (descends sums nests (chooses false)).trans (failsInBlock nests inBlock.symm)
    · refine (asksOn sums nests compares chooses subtracts understands (by omega) settled current
        further).trans ?_
      refine Passage.trans (inductionHypothesis (by omega) rfl current (by omega) (by omega)) ?_
      have inner : Passage (stage.At (fun _ => True) (depth + 2))
          ⟨.fail (.error (.stackOverflow (stage.maxDepth + 1))),
            .activation .plain (inner heap [.ofInt n] 12) 14 .push :: .operation .pass ::
              .activation .plain (live object heap [] 9) 11 .push :: waiting⟩
          (stage.At (fun _ => True) (depth + 1))
          ⟨.fail (.error (.stackOverflow (stage.maxDepth + 1))),
            .operation .pass :: .activation .plain (live object heap [] 9) 11 .push :: waiting⟩ :=
        .unwinds (fun _ _ => trivial) _
      exact inner.trans (Passage.trans (.abandons _ _) (.unwinds (fun _ _ => trivial) _))

end

end

end Summing

end ObjectMachine
