/-! # Sets of code points as ordered ranges -/

namespace StructProjection.Text

/-- Binary search among ordered ranges: `steps` halvings of the part between `lo` and `hi`. -/
private def searchRanges (ranges : Array (Nat × Nat)) (code : Nat) : (steps lo hi : Nat) → Bool
  | 0, _, _ => false
  | steps + 1, lo, hi =>
    if lo < hi then
      let mid := (lo + hi) / 2
      match ranges[mid]? with
      | none => false
      | some (first, last) =>
        if code < first then searchRanges ranges code steps lo mid
        else if last < code then searchRanges ranges code steps (mid + 1) hi
        else true
    else false

/-- Whether a code point lies in one of at most 4095 ranges, which are inclusive and in order. -/
def inRanges (ranges : Array (Nat × Nat)) (code : Nat) : Bool :=
  searchRanges ranges code 12 0 ranges.size

end StructProjection.Text
