/-
This file looks a number up in an ascending table of ranges by halving.
-/

namespace ObjectMachine

/-- Looks between the rows `low` and `high`; each turn halves the distance. -/
def inRangesBetween (ranges : Array (Nat × Nat)) (n : Nat) : (room low high : Nat) → Bool
  | 0, _, _ => false
  | room + 1, low, high =>
    if high ≤ low then false
    else
      let middle := (low + high) / 2
      match ranges[middle]? with
      | none => false
      | some (first, last) =>
        if n < first then inRangesBetween ranges n room low middle
        else if last < n then inRangesBetween ranges n room (middle + 1) high
        else true

def inRanges (ranges : Array (Nat × Nat)) (n : Nat) : Bool :=
  inRangesBetween ranges n (ranges.size.log2 + 2) 0 ranges.size

end ObjectMachine
