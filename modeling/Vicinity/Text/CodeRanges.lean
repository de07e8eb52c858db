/-!
# Sets of characters given by code point ranges

A character property of the Unicode standard is stored as its maximal runs of code points, in
increasing order; `CodeRanges.has` finds a character's run by bisection.
-/

namespace Vicinity.Text

/-- Closed runs of code points, in increasing order and pairwise apart. -/
abbrev CodeRanges := Array (Nat × Nat)

namespace CodeRanges

/-- Whether one of the runs at the indices from `lo` up to `hi` holds the code point `n`. -/
def search (runs : CodeRanges) (n lo hi : Nat) : Bool :=
  if lo < hi then
    let mid := (lo + hi) / 2
    let (first, last) := runs.getD mid (0, 0)
    if n < first then search runs n lo mid
    else if last < n then search runs n (mid + 1) hi
    else true
  else false
termination_by hi - lo

/-- Whether one of the runs holds the character. -/
def has (runs : CodeRanges) (c : Char) : Bool :=
  search runs c.toNat 0 runs.size

end CodeRanges

end Vicinity.Text
