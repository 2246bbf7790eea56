/-
This file makes threaded code. Code is followed from the start, the fall-through first;
the target of a conditional jump is put on a list of places to resume at once the
current path has ended. Unconditional jumps are followed at once. The lists live in a
pool that all methods share, and what was pushed stays there also when a path meets
bytes that do not decode.
-/

import ObjectMachine.Machine

namespace ObjectMachine

namespace ThreadedProgram

/-- Threaded code in the making. -/
structure Traversal where
  nodes : Array (Option ThreadedNode)
  /-- Where to resume when the current path has ended. -/
  pending : ContinuationList
  pool : ContinuationPool
  /-- The offset the current path has come to. -/
  cursor : Option Nat

namespace Traversal

/-- Goes on at the newest pending offset. -/
def resume (traversal : Traversal) : Traversal :=
  match traversal.pool.pop? traversal.pending with
  | some (offset, rest) => { traversal with pending := rest, cursor := some offset }
  | none => { traversal with cursor := none }

/-- Adds the instruction at `offset` and moves on along its path. -/
def advance (traversal : Traversal) (offset : Nat) (node : ThreadedNode) : Traversal :=
  let traversal :=
    { traversal with nodes := traversal.nodes.setIfInBounds offset (some node) }
  let target := node.instruction.jumpTarget? offset
  match node.instruction with
  | .jump _ | .jumpBackward _ =>
    match target with
    | some target => { traversal with cursor := some target }
    | none => traversal.resume
  | instruction =>
    if instruction.endsBlock then traversal.resume
    else
      match target with
      | some target =>
        let (pending, pool) := traversal.pool.push target traversal.pending
        { traversal with pending, pool, cursor := some node.next }
      | none => { traversal with cursor := some node.next }

/-- Follows all paths, for as many turns as `room` allows. -/
def follow (fetch : Nat → Except DecodeError (Instruction × Nat)) :
    (room : Nat) → Traversal → ContinuationPool × Except DecodeError ThreadedProgram
  | 0, traversal => (traversal.pool, .ok ⟨traversal.nodes⟩)
  | room + 1, traversal =>
    match traversal.cursor with
    | none => (traversal.pool, .ok ⟨traversal.nodes⟩)
    | some offset =>
      if traversal.nodes.size ≤ offset ∨ (traversal.nodes[offset]?.join).isSome then
        follow fetch room traversal.resume
      else
        match fetch offset with
        | .error error => (traversal.pool, .error error)
        | .ok (instruction, length) =>
          follow fetch room (traversal.advance offset ⟨instruction, offset + length⟩)

end Traversal

/--
Threaded code of `size` bytes read by `fetch`. Each offset gets its node once and adds at
most one pending offset, so twice as many turns as bytes are enough.
-/
def compile (fetch : Nat → Except DecodeError (Instruction × Nat)) (size : Nat)
    (pool : ContinuationPool) : ContinuationPool × Except DecodeError ThreadedProgram :=
  Traversal.follow fetch (2 * size + 2) {
    nodes := Array.replicate size none
    pending := .empty
    pool
    cursor := if size = 0 then none else some 0 }

end ThreadedProgram

namespace Engine

/-- Makes threaded code of a method as it is patched now. -/
def threadedCode (method : MethodId) : Engine ThreadedProgram := do
  let (pool, result) := (fun machine : Machine =>
    ThreadedProgram.compile (machine.heap.instructionAt method)
      (machine.heap.methods.get method).code.size machine.continuations) (← get)
  modify fun machine => { machine with continuations := pool }
  match result with
  | .ok program => return program
  | .error error => badBytecode method error

/--
Whether a method runs threaded code, which is made once the method has been called often
enough.
-/
def ensureThreaded (method : MethodId) : Engine Bool := do
  let state ← heapValue (·.states.get method)
  if state.invocations < (← get).config.warmThreshold then return false
  else if state.threaded.isSome then return true
  else
    let program ← threadedCode method
    changeHeap (·.modifyState method fun state => { state with threaded := some program })
    return true

/-- The threaded code of a method that has been called often enough. -/
def threadedProgram? (method : MethodId) : Engine (Option ThreadedProgram) := do
  if ← ensureThreaded method then heapValue fun heap => (heap.states.get method).threaded
  else return none

def threadedNode? (method : MethodId) (offset : Nat) : Engine (Option ThreadedNode) :=
  heapValue fun heap =>
    match (heap.states.get method).threaded with
    | some program => program.node? offset
    | none => none

/-- Reads the instruction at an offset again after it was patched. -/
def refreshThreaded (method : MethodId) (offset : Nat) : Engine Unit := do
  let (instruction, length) ← instructionAt method offset
  changeHeap (·.modifyState method fun state =>
    { state with
      threaded := state.threaded.map fun program =>
        ⟨program.nodes.setIfInBounds offset (some ⟨instruction, offset + length⟩)⟩ })

end Engine

end ObjectMachine
