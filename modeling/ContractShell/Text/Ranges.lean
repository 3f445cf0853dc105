/-!
Sets of characters given by ranges of their numbers.
-/

namespace ContractShell.Text

/-- Binary search for the range that holds `n`, among the ranges `low` up to but not including `high`. -/
def inRangesFrom (ranges : Array (Nat × Nat)) (n : Nat) : Nat → Nat → Nat → Bool
  | 0, _, _ => false
  | fuel + 1, low, high =>
    if low < high then
      let middle := (low + high) / 2
      match ranges[middle]? with
      | none => false
      | some (first, last) =>
        if n < first then inRangesFrom ranges n fuel low middle
        else if last < n then inRangesFrom ranges n fuel (middle + 1) high
        else true
    else false

/-- A number is in one of the ranges, which are in order, first and last of each. -/
def inRanges (ranges : Array (Nat × Nat)) (n : Nat) : Bool := inRangesFrom ranges n (ranges.size + 1) 0 ranges.size

end ContractShell.Text
