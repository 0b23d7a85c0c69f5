/-!
# Ranges of code points

A property of characters is a table of closed ranges, sorted and disjoint.
Membership is decided by bisection.
-/

namespace FlatAsm.Text

/--
Does one of the ranges with an index in `[low, high)` hold the code point?

The ranges outside these indices are known not to hold it.
-/
def bisect
    (ranges : Array (Nat × Nat)) (code low high : Nat) : Bool :=
  if low < high then
    let middle := (low + high) / 2
    match ranges[middle]? with
    | none => false
    | some (first, last) =>
        if code < first then bisect ranges code low middle
        else if last < code then bisect ranges code (middle + 1) high
        else true
  else false
termination_by high - low

/-- Does one of the ranges hold the code point? -/
def inRanges (ranges : Array (Nat × Nat)) (code : Nat) : Bool :=
  bisect ranges code 0 ranges.size

end FlatAsm.Text
