/-
This file counts how often a backward jump is taken. The threshold in force at the first
decision stays for ever. A jump is hot once its count has passed that threshold; a hot
jump is not counted any further.
-/

namespace ObjectMachine

inductive EdgeState
  | cold
  | hot
deriving DecidableEq

structure BackEdge where
  count : UInt32 := 0
  /-- The threshold of the first decision. -/
  latched : Option UInt32 := none
deriving DecidableEq, Inhabited

namespace BackEdge

/-- Takes the jump once, `threshold` being the one in force now. -/
def take (edge : BackEdge) (threshold : UInt32) : EdgeState × BackEdge :=
  let limit := edge.latched.getD threshold
  if limit < edge.count then (.hot, { edge with latched := some limit })
  else (.cold, ⟨edge.count + 1, some limit⟩)

/-- Takes the jump a number of times under one threshold, counting in one go. -/
def takeTimes (edge : BackEdge) (threshold : UInt32) : (times : Nat) → EdgeState × BackEdge
  | 0 => (.cold, edge)
  | times + 1 =>
    let limit := edge.latched.getD threshold
    -- No count is above the greatest threshold, so such a jump never gets hot.
    let cold :=
      if limit = UInt32.ofNat (UInt32.size - 1) then times + 1
      else min (times + 1) (limit.toNat + 1 - edge.count.toNat)
    (if cold = times + 1 then .cold else .hot, ⟨edge.count + UInt32.ofNat cold, some limit⟩)

/-- Starts counting again; the threshold stays. -/
def reset (edge : BackEdge) : BackEdge := { edge with count := 0 }

end BackEdge

end ObjectMachine
