import Vicinity.Declaration

/-!
# The lines of a declaration

However a reference is expanded, the lines of the declaration lie in the text, and the span that is
recorded for them covers them.

## What is proved

* `bounds_of_braceSlice?`, `bounds_of_indentationSlice?`: the first and last line of a declaration are
  lines of the text, in this order.
* `sliceLines_of_lines`: a span that reaches from the beginning of one line to the end of another covers
  these lines.
-/

namespace Vicinity

open Vicinity.Text

variable {lines : List (List Char)}

/-! ### First and last lines -/

theorem nearestDeclaration_le (lines : List (List Char)) (line : Nat) :
    nearestDeclaration lines line ≤ line := by
  induction line with
  | zero => exact Nat.le_refl 0
  | succ line ih =>
    unfold nearestDeclaration
    split
    · exact Nat.le_refl _
    · exact Nat.le_succ_of_le ih

/-- A declaration begins in the text. -/
theorem declarationStart_bounds (hne : lines ≠ []) (line : Int) :
    0 ≤ declarationStart lines line ∧ declarationStart lines line < lines.length := by
  have hlen : 0 < lines.length := List.length_pos_iff.mpr hne
  have hnear := nearestDeclaration_le lines (min (max line 0) (lines.length - 1)).toNat
  unfold declarationStart
  dsimp only
  split <;> omega

theorem balancingLine_bounds {more : List (List Char)} {i j : Nat} {depth : Int} {seenOpen : Bool}
    (h : balancingLine i depth seenOpen more = some j) : i ≤ j ∧ j < i + more.length := by
  induction more generalizing i depth seenOpen with
  | nil => cases h
  | cons line more ih =>
    unfold balancingLine at h
    dsimp only at h
    split at h
    · cases h
      simp
    · have := ih h
      rw [List.length_cons]
      omega

/-- The last line of an indented declaration is the one given or one of the lines gone through. -/
theorem lastIndented_bounds (column i last : Nat) (more : List (List Char)) :
    lastIndented column i last more = last ∨
      i ≤ lastIndented column i last more ∧ lastIndented column i last more < i + more.length := by
  induction more generalizing i last with
  | nil => exact .inl rfl
  | cons line more ih =>
    unfold lastIndented
    rw [List.length_cons]
    split
    · have := ih (i + 1) last
      omega
    · split
      · exact .inl rfl
      · have := ih (i + 1) i
        omega

theorem bounds_of_braceSlice? {first last start stop : Int}
    (h : braceSlice? lines first last = some (start, stop)) :
    0 ≤ start ∧ start ≤ stop ∧ stop < lines.length := by
  unfold braceSlice? at h
  by_cases hempty : lines.isEmpty
  · simp [hempty] at h
  have hne : lines ≠ [] := by simpa using hempty
  have hstart := declarationStart_bounds hne first
  simp only [hempty, Bool.false_eq_true, ↓reduceIte, Option.some.injEq, Prod.mk.injEq] at h
  obtain ⟨rfl, rfl⟩ := h
  split
  · rename_i j hj
    have := balancingLine_bounds hj
    rw [List.length_drop] at this
    omega
  · rcases Int.le_total last (declarationStart lines first) with h | h
    · rw [Int.max_eq_right h]
      omega
    · rw [Int.max_eq_left h]
      omega

theorem bounds_of_indentationSlice? {line start stop : Int}
    (h : indentationSlice? lines line = some (start, stop)) :
    0 ≤ start ∧ start ≤ stop ∧ stop < lines.length := by
  unfold indentationSlice? at h
  by_cases hempty : lines.isEmpty
  · simp [hempty] at h
  have hne : lines ≠ [] := by simpa using hempty
  have hstart := declarationStart_bounds hne line
  simp only [hempty, Bool.false_eq_true, ↓reduceIte, Option.some.injEq, Prod.mk.injEq] at h
  obtain ⟨rfl, rfl⟩ := h
  have := lastIndented_bounds (indentation (lines.getD (declarationStart lines line).toNat []))
    ((declarationStart lines line).toNat + 1) (declarationStart lines line).toNat
    (lines.drop ((declarationStart lines line).toNat + 1))
  rw [List.length_drop] at this
  omega

/-! ### What the span covers -/

/-- The lines from one to another are the one, those between, and the other. -/
theorem drop_take_succ {a b : Nat} (hab : a < b) (hb : b < lines.length) :
    (lines.take (b + 1)).drop a =
      lines.getD a [] :: ((lines.take b).drop (a + 1) ++ [lines.getD b []]) := by
  have ha : a < lines.length := Nat.lt_trans hab hb
  have hlen : (lines.take b).length = b := List.length_take_of_le (Nat.le_of_lt hb)
  have hfirst : a < (lines.take b).length := hlen.symm ▸ hab
  rw [List.take_succ_eq_append_getElem hb, List.drop_append_of_le_length (Nat.le_of_lt hfirst),
    List.drop_eq_getElem_cons hfirst, List.getElem_take, List.cons_append]
  simp [ha, hb]

/-- The slice from one line to another, both of them included. -/
theorem slice_of_lt {a b : Nat} (hab : a ≤ b) (hb : b < lines.length) :
    slice lines (a : Int) (b + 1 : Int) = (lines.take (b + 1)).drop a := by
  have hclamp : clampIndex lines.length (b + 1 : Int) = b + 1 := by
    exact_mod_cast clampIndex_ofNat_of_le hb
  unfold slice
  rw [hclamp, clampIndex_ofNat_of_le (by omega)]

/-- A span from the beginning of a line to the end of one that does not come before it covers these
lines. -/
theorem sliceLines_of_lines {a b : Nat} (hab : a ≤ b) (hb : b < lines.length) :
    sliceLines lines (.of a 0 b (lines.getD b []).length) = unlines (slice lines a (b + 1)) := by
  have hne : lines.isEmpty = false := by
    rw [List.isEmpty_eq_false_iff]
    exact List.ne_nil_of_length_pos (Nat.zero_lt_of_lt hb)
  have hstart : ¬((a : Int) ≥ lines.length) := by omega
  have hfirst : (max (a : Int) 0).toNat = a := by omega
  have hlast : min (b : Int) (lines.length - 1 : Int) = b := by omega
  have hzero : ∀ n : Nat, clampIndex n 0 = 0 := fun n => clampIndex_ofNat_of_le (Nat.zero_le n)
  have hall : ∀ n : Nat, clampIndex n n = n := fun n => clampIndex_ofNat_of_le (Nat.le_refl n)
  unfold sliceLines Span.of
  dsimp only
  rw [hne, hfirst, hlast, slice_of_lt hab hb]
  by_cases heq : a = b
  · subst heq
    have hone : (lines.take (a + 1)).drop a = [lines.getD a []] := by
      rw [List.take_succ_eq_append_getElem hb, List.drop_left' (List.length_take_of_le (by omega))]
      simp [hb]
    rw [hone]
    simp [hstart, slice, hzero, hall, unlines, joinWith]
  · rw [drop_take_succ (Nat.lt_of_le_of_ne hab heq) hb]
    have hlt : ¬((b : Int) < a) := by omega
    simp [hstart, hlt, heq, sliceFrom, sliceTo, hzero, hall]

end Vicinity
