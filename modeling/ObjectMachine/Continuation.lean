/-
This file interns lists of bytecode offsets. A list is a handle into a pool, and pushing
the same offset onto the same list twice gives the same handle, so equal lists have
equal handles. The list of a handle never changes, and a list is newer than its rest.
-/

namespace ObjectMachine

/--
A list of the pool; the empty list has the handle zero. A handle is meant to fit into 32 bits:
that a pool has fewer than 2 ^ 32 lists is assumed and not checked.
-/
structure ContinuationList where
  handle : Nat
deriving DecidableEq, Inhabited

def ContinuationList.empty : ContinuationList := ⟨0⟩

/-- The non-empty lists, the one with handle one first. -/
structure ContinuationPool where
  nodes : Array (Nat × ContinuationList) := #[]
deriving Inhabited

namespace ContinuationPool

/-- How many non-empty lists there are. -/
def size (pool : ContinuationPool) : Nat := pool.nodes.size

def push (pool : ContinuationPool) (offset : Nat) (rest : ContinuationList) :
    ContinuationList × ContinuationPool :=
  match pool.nodes.findIdx? (· == (offset, rest)) with
  | some index => (⟨index + 1⟩, pool)
  | none => (⟨pool.size + 1⟩, { pool with nodes := pool.nodes.push (offset, rest) })

/-- The head and the rest of a list that is not empty. -/
def pop? (pool : ContinuationPool) (list : ContinuationList) :
    Option (Nat × ContinuationList) :=
  match list.handle with
  | 0 => none
  | index + 1 => pool.nodes[index]?

def offsetsWithin (pool : ContinuationPool) : (room : Nat) → ContinuationList → List Nat
  | 0, _ => []
  | room + 1, list =>
    match pool.pop? list with
    | none => []
    | some (offset, rest) => offset :: pool.offsetsWithin room rest

/-- The offsets of a list from head to tail; a list is no longer than its handle. -/
def offsets (pool : ContinuationPool) (list : ContinuationList) : List Nat :=
  pool.offsetsWithin list.handle list

end ContinuationPool

end ObjectMachine
