/-!
# Slices by signed index

An index of a slice may be any integer: a negative one counts from the end, and one that lies
outside is taken as the nearest end.
-/

namespace Vicinity.Text

/-- The place in a sequence of `size` elements that a signed index names. -/
def clampIndex (size : Nat) (i : Int) : Nat :=
  if i < 0 then (size + i).toNat else min i.toNat size

/-- The elements from `start` on. -/
def sliceFrom {α : Type _} (xs : List α) (start : Int) : List α :=
  xs.drop (clampIndex xs.length start)

/-- The elements up to `stop`, which is not among them. -/
def sliceTo {α : Type _} (xs : List α) (stop : Int) : List α :=
  xs.take (clampIndex xs.length stop)

/-- The elements from `start` up to `stop`; none if `stop` does not come after `start`. -/
def slice {α : Type _} (xs : List α) (start stop : Int) : List α :=
  (xs.take (clampIndex xs.length stop)).drop (clampIndex xs.length start)

theorem clampIndex_ofNat_of_le {size i : Nat} (h : i ≤ size) : clampIndex size i = i := by
  unfold clampIndex
  split <;> omega

end Vicinity.Text
