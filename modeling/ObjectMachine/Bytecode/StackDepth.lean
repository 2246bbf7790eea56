/-
This file computes how deep the operand stack is before each reachable instruction.
The analysis follows every edge of the control flow once, from offset zero with an
empty stack, and fails when an instruction lacks values, when two paths meet with
different depths, when control leaves the code, and when a byte does not decode.
-/

import ObjectMachine.Bytecode.Decode

namespace ObjectMachine

/-! ### One instruction -/

/-- What an instruction asks of the stack and does to it. -/
structure StackEffect where
  required : Nat
  popped : Nat
  pushed : Nat
deriving DecidableEq

/-- A way control can go on, with the depth it leads to. -/
structure Edge where
  target : Nat
  depth : Nat
deriving DecidableEq

namespace Instruction

/-- How many values a send of this form takes, `arityOf` giving the selectors' arities. -/
def valueCount (arityOf : UInt8 → Nat) (literal : UInt8) (arity : Arity) : Nat :=
  arity.fixed?.getD (arityOf literal)

/-- The effect on the path that falls through. -/
def stackEffect (arityOf : UInt8 → Nat) : Instruction → StackEffect
  | .halt | .returnLocal | .returnNonLocal _ => ⟨1, 0, 0⟩
  | .dup => ⟨1, 0, 1⟩
  | .dupSecond => ⟨2, 0, 1⟩
  | .pushFrame _ | .pushInner .. | .pushField .. | .pushBlock .. | .pushConstant _
  | .pushZero | .pushOne | .pushNil | .pushGlobal _ | .pushLocal .. | .pushArgument ..
  | .incFieldPush .. => ⟨0, 0, 1⟩
  | .pop | .popFrame _ | .popInner .. | .popField .. | .popLocal .. | .popArgument .. =>
    ⟨1, 1, 0⟩
  | .nilFrame _ | .nilInner _ | .nilLocal _ | .incField .. | .returnSelf | .returnField _
  | .jump _ | .jumpBackward _ => ⟨0, 0, 0⟩
  | .send literal arity | .superSend literal arity | .quickSuperSend literal arity =>
    ⟨valueCount arityOf literal arity, valueCount arityOf literal arity, 1⟩
  | .inc | .dec => ⟨1, 1, 1⟩
  | .jumpOnTrueTopNil _ | .jumpOnFalseTopNil _ | .jumpOnTruePop _ | .jumpOnFalsePop _ =>
    ⟨1, 1, 0⟩
  | .jumpIfGreater _ => ⟨2, 0, 0⟩

/--
The edges out of an instruction at `offset` that is followed by `next` and leaves
`depth` values on the path that falls through, that path first. A jump that answers
nil leaves it in place of the condition; a comparison that jumps drops both values.
There is no answer for a jump before the start of the code.
-/
def edges? (instruction : Instruction) (offset next depth : Nat) : Option (List Edge) :=
  match instruction with
  | .halt | .returnLocal | .returnNonLocal _ | .returnSelf | .returnField _ => some []
  | .jump _ | .jumpBackward _ =>
    (instruction.jumpTarget? offset).map fun target => [⟨target, depth⟩]
  | .jumpOnTrueTopNil _ | .jumpOnFalseTopNil _ =>
    (instruction.jumpTarget? offset).map fun target => [⟨next, depth⟩, ⟨target, depth + 1⟩]
  | .jumpOnTruePop _ | .jumpOnFalsePop _ =>
    (instruction.jumpTarget? offset).map fun target => [⟨next, depth⟩, ⟨target, depth⟩]
  | .jumpIfGreater _ =>
    (instruction.jumpTarget? offset).map fun target => [⟨next, depth⟩, ⟨target, depth - 2⟩]
  | _ => some [⟨next, depth⟩]

end Instruction

/-! ### Failures -/

inductive StackFault
  | undecodable (error : DecodeError)
  | underflow (offset : Nat) (instruction : Instruction) (required depth : Nat)
  | jumpBeforeStart (offset : Nat) (instruction : Instruction)
  | leavesCode (offset target : Nat)
  | inconsistentJoin (target seen depth : Nat)
deriving DecidableEq

namespace StackFault

/-- The offset a fault is reported at. -/
def offset : StackFault → Nat
  | .undecodable error => error.offset
  | .underflow offset .. | .jumpBeforeStart offset _ | .leavesCode offset _ => offset
  | .inconsistentJoin target .. => target

def detail : StackFault → String
  | .undecodable error => error.message
  | .underflow _ instruction required depth =>
    "stack underflow at " ++ instruction.text ++ ", needed " ++ toString required
      ++ " items, had " ++ toString depth
  | .jumpBeforeStart _ instruction =>
    "jump before the start of the method: " ++ instruction.text
  | .leavesCode _ target => "control leaves the method at " ++ toString target
  | .inconsistentJoin _ seen depth =>
    "inconsistent depth at join: " ++ toString seen ++ " vs " ++ toString depth

def message (fault : StackFault) : String :=
  "stack-check error at " ++ toString fault.offset ++ ": " ++ fault.detail

end StackFault

/-! ### All instructions -/

/-- The depths of a method: before each reached instruction, and the largest of all. -/
structure StackDepths where
  before : Array (Option Nat)
  maximum : Nat

def StackDepths.before? (depths : StackDepths) (offset : Nat) : Option Nat :=
  (depths.before[offset]?).join

namespace StackDepths

/-- The depths known so far and the offsets whose edges are still to be followed. -/
structure Progress where
  depths : StackDepths
  pending : List Nat

/-- Follows one edge out of the instruction at `offset`. -/
def follow (offset : Nat) (progress : Progress) (edge : Edge) : Except StackFault Progress :=
  if progress.depths.before.size ≤ edge.target then
    .error (.leavesCode offset edge.target)
  else
    match progress.depths.before? edge.target with
    | none => .ok {
        depths := { progress.depths with
          before := progress.depths.before.setIfInBounds edge.target (some edge.depth) }
        pending := edge.target :: progress.pending }
    | some seen =>
      if seen = edge.depth then .ok progress
      else .error (.inconsistentJoin edge.target seen edge.depth)

/-- Visits the instruction at `offset`, reached with `depth` values. -/
def visit (code : Array UInt8) (arityOf : UInt8 → Nat) (progress : Progress)
    (offset depth : Nat) : Except StackFault Progress :=
  match decodeAt code offset with
  | .error error => .error (.undecodable error)
  | .ok (instruction, length) =>
    let effect := instruction.stackEffect arityOf
    if depth < effect.required then
      .error (.underflow offset instruction effect.required depth)
    else
      let after := depth - effect.popped + effect.pushed
      let progress := { progress with
        depths := { progress.depths with
          maximum := max (max progress.depths.maximum after) depth } }
      match instruction.edges? offset (offset + length) after with
      | none => .error (.jumpBeforeStart offset instruction)
      | some edges => edges.foldlM (follow offset) progress

/-- Visits pending offsets, the newest first, for as many visits as `room` allows. -/
def explore (code : Array UInt8) (arityOf : UInt8 → Nat) :
    (room : Nat) → Progress → Except StackFault StackDepths
  | 0, progress => .ok progress.depths
  | room + 1, progress =>
    match progress.pending with
    | [] => .ok progress.depths
    | offset :: rest =>
      match progress.depths.before? offset with
      | none => explore code arityOf room { progress with pending := rest }
      | some depth =>
        match visit code arityOf { progress with pending := rest } offset depth with
        | .error fault => .error fault
        | .ok progress => explore code arityOf room progress

end StackDepths

/--
The depths of `code`. An offset becomes pending once, when its depth is set, so there
are at most as many visits as bytes.
-/
def analyze (code : Array UInt8) (arityOf : UInt8 → Nat) : Except StackFault StackDepths :=
  let unknown := Array.replicate code.size none
  if code.isEmpty then .ok ⟨unknown, 0⟩
  else
    StackDepths.explore code arityOf (code.size + 1)
      ⟨⟨unknown.setIfInBounds 0 (some 0), 0⟩, [0]⟩

end ObjectMachine
