/-!
# Tables of code point ranges

A property of characters above ASCII is kept as an array of ascending, disjoint closed ranges.
`inRanges` finds the only range that can hold a code point by halving.
-/

namespace Rebind

/-- the search for `n` among the ranges with indices `lo ≤ i < hi` -/
def inRangesBetween (table : Array (Nat × Nat)) (n lo hi : Nat) : Bool :=
  if lo < hi then
    let mid := (lo + hi) / 2
    match table[mid]? with
    | none => false
    | some (first, last) =>
      if n < first then inRangesBetween table n lo mid
      else if last < n then inRangesBetween table n (mid + 1) hi
      else true
  else false
termination_by hi - lo

def inRanges (table : Array (Nat × Nat)) (n : Nat) : Bool :=
  inRangesBetween table n 0 table.size

end Rebind
