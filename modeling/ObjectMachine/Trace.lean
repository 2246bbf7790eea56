/-
This file runs code one instruction at a time and writes down what each of them did: where
control went and what was on the operand stack then. Only the instructions of the one
activation are written down; what they call runs as usual.
-/

import ObjectMachine.Run

namespace ObjectMachine

/-- One executed instruction. -/
structure TraceStep where
  offset : Nat
  instruction : Instruction
  /-- How the loop went on, or nothing after an instruction that did not come to an end. -/
  flow : Option Flow
  /-- The operand stack afterwards. -/
  stack : OperandStack
deriving DecidableEq

/-- How a trace ends. -/
inductive TraceEnd
  | answer (value : Value)
  | abrupt (cause : Abrupt)
  | undecodable (error : DecodeError)
  /-- As many instructions as asked for have been executed. -/
  | limit
deriving DecidableEq

/-- Where control stands after an instruction; an answer leaves it where it is. -/
def Flow.nextOffset (flow : Flow) (offset length : Nat) : Nat :=
  match flow with
  | .next => offset + length
  | .jump target | .backEdge target => target
  | .retry | .answer _ => offset

namespace Activation

/-- Executes an instruction, an abrupt end being a result like any other. -/
def attempt (call : Caller) (activation : Activation) (offset : Nat)
    (instruction : Instruction) : Engine (Except Abrupt (Flow × Activation)) := fun machine =>
  match activation.execute call offset instruction machine with
  | .ok result machine => .ok (.ok result) machine
  | .error cause machine => .ok (.error cause) machine

/-- Traces at most `limit` instructions from an offset on. -/
def trace (call : Caller) :
    (limit : Nat) → Activation → Nat → Engine (List TraceStep × TraceEnd)
  | 0, _, _ => return ([], .limit)
  | limit + 1, activation, offset => do
    match ← Engine.heapValue (·.instructionAt activation.method offset) with
    | .error error => return ([], .undecodable error)
    | .ok (instruction, length) =>
      match ← activation.attempt call offset instruction with
      | .error cause =>
        return ([⟨offset, instruction, none, activation.stack⟩], .abrupt cause)
      | .ok (flow, activation) =>
        let step : TraceStep := ⟨offset, instruction, some flow, activation.stack⟩
        match flow with
        | .answer value => return ([step], .answer value)
        | flow =>
          let (rest, last) ← trace call limit activation (flow.nextOffset offset length)
          return (step :: rest, last)

end Activation

end ObjectMachine
