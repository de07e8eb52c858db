import Vicinity.Document
import Vicinity.Source.Scan

/-!
# Offsets and positions

An offset in a text has a line and a column: the number of lines before it, and what the last of these
has before it. Cutting a text from the position of one offset to that of another gives the characters
between the two offsets.

## What is proved

* `lines_append`: the lines of two texts put together.
* `positionOfOffset_append`: the position at the end of a text that goes on.
* `positionOfOffset_lt`: positions are in the order of their offsets.
* `eq_of_positionOfOffset`: different places have different positions.
* `textIn_positionOfOffset`, `textIn_eq_drop_take`: what stands between the positions of two offsets.
-/

namespace Vicinity

open Text

theorem lines_newline (s : List Char) : lines ('\n' :: s) = [] :: lines s := splitOn_cons_sep _ s

theorem lines_cons_of_ne {c : Char} (hc : c ≠ '\n') {s first : List Char} {more : List (List Char)}
    (h : lines s = first :: more) : lines (c :: s) = (c :: first) :: more := by
  obtain ⟨piece, rest, hs, hcons⟩ := splitOn_cons_of_ne s hc
  rw [← lines, h] at hs
  cases hs
  exact hcons

theorem exists_lines_eq_cons (s : List Char) : ∃ first more, lines s = first :: more :=
  List.exists_cons_of_ne_nil (splitOn_ne_nil _ s)

theorem exists_lines_eq_concat (s : List Char) : ∃ before last, lines s = before ++ [last] := by
  rcases List.eq_nil_or_concat (lines s) with hnil | ⟨before, last, hconcat⟩
  · exact absurd hnil (splitOn_ne_nil _ s)
  · exact ⟨before, last, hconcat.trans List.concat_eq_append⟩

/-- The lines of two texts put together: the last line of the one and the first of the other become
one line. -/
theorem lines_append {s t : List Char} {before after : List (List Char)} {last first : List Char}
    (hs : lines s = before ++ [last]) (ht : lines t = first :: after) :
    lines (s ++ t) = before ++ (last ++ first) :: after := by
  induction s generalizing before last with
  | nil =>
    have hone : before ++ [last] = [[]] := hs.symm
    cases before with
    | nil =>
      cases hone
      exact ht
    | cons line before => simp at hone
  | cons c s ih =>
    by_cases hc : c = '\n'
    · subst hc
      rw [lines_newline] at hs
      cases before with
      | nil => exact absurd (List.cons.inj hs).2 (splitOn_ne_nil _ _)
      | cons line before =>
        obtain ⟨rfl, hrest⟩ := List.cons.inj hs
        rw [List.cons_append, lines_newline, ih hrest]
        rfl
    · obtain ⟨piece, more, hpiece⟩ := exists_lines_eq_cons s
      rw [lines_cons_of_ne hc hpiece] at hs
      cases before with
      | nil =>
        cases hs
        have hrest : lines (s ++ t) = [] ++ (piece ++ first) :: after := ih hpiece
        exact lines_cons_of_ne hc hrest
      | cons line before =>
        obtain ⟨rfl, rfl⟩ := List.cons.inj hs
        have hrest : lines (s ++ t) = piece :: before ++ (last ++ first) :: after := ih hpiece
        exact lines_cons_of_ne hc hrest

/-- Lines that hold no line feed are the lines of the text that is put together from them. -/
theorem lines_unlines {ls : List (List Char)} (hne : ls ≠ []) (h : ∀ line ∈ ls, '\n' ∉ line) :
    lines (unlines ls) = ls := splitOn_joinWith hne h

theorem lines_of_not_mem {s : List Char} (h : '\n' ∉ s) : lines s = [s] := splitOn_of_not_mem h

/-- A text ends with its last line; what comes before that is a line feed. -/
theorem ends_with_last {s last : List Char} {before : List (List Char)} (h : lines s = before ++ [last]) :
    s = last ∨ ∃ front, s = front ++ '\n' :: last := by
  rw [← unlines_lines s, h]
  by_cases hbefore : before = []
  · rw [hbefore, List.nil_append, unlines_singleton]
    exact .inl rfl
  · rw [unlines_append hbefore (List.cons_ne_nil _ _), unlines_singleton]
    exact .inr ⟨_, rfl⟩

/-- A text begins with its first line; what comes after that is a line feed. -/
theorem begins_with_first {s first : List Char} {after : List (List Char)}
    (h : lines s = first :: after) : ∃ tail, s = first ++ tail ∧ ∀ c ∈ tail.head?, c = '\n' := by
  obtain ⟨tail, htail, hhead⟩ := exists_unlines_eq_append (lines s) Nat.one_pos
  rw [unlines_lines, h, List.take_succ_cons, List.take_zero, unlines_singleton] at htail
  exact ⟨tail, htail, hhead⟩

/-- At the beginning of a line the last line of what comes before is empty. -/
theorem exists_lines_of_lineStart {before : List Char} (h : before.getLast?.all (· == '\n') = true) :
    ∃ prior, lines before = prior ++ [[]] := by
  rcases List.eq_nil_or_concat before with rfl | ⟨front, c, rfl⟩
  · exact ⟨[], rfl⟩
  · rw [List.concat_eq_append, List.getLast?_concat, Option.all_some, beq_iff_eq] at h
    subst h
    obtain ⟨prior, last, hlines⟩ := exists_lines_eq_concat front
    have htwo : lines ['\n'] = [] :: [[]] := rfl
    refine ⟨prior ++ [last], ?_⟩
    rw [List.concat_eq_append, lines_append hlines htwo]
    simp

/-- The line and the column after a text, if it begins at the given line and column. -/
theorem lineColumnAfter_append {s t : List Char} {before : List (List Char)} {last : List Char}
    (hs : lines s = before ++ [last]) (line column : Nat) :
    lineColumnAfter (s ++ t) s.length line column =
      (line + before.length, (if before = [] then column else 0) + last.length) := by
  induction s generalizing before last line column with
  | nil =>
    have hone : before ++ [last] = [[]] := hs.symm
    cases before with
    | nil =>
      cases hone
      cases t <;> simp [lineColumnAfter]
    | cons first before => simp at hone
  | cons c s ih =>
    rw [List.cons_append, List.length_cons, lineColumnAfter]
    by_cases hc : c = '\n'
    · subst hc
      rw [lines_newline] at hs
      cases before with
      | nil => exact absurd (List.cons.inj hs).2 (splitOn_ne_nil _ _)
      | cons first before =>
        obtain ⟨rfl, hrest⟩ := List.cons.inj hs
        rw [if_pos rfl, ih hrest]
        simp
        omega
    · obtain ⟨piece, more, hpiece⟩ := exists_lines_eq_cons s
      rw [lines_cons_of_ne hc hpiece] at hs
      rw [if_neg hc]
      cases before with
      | nil =>
        cases hs
        have hrest : lines s = [] ++ [piece] := hpiece
        rw [ih hrest]
        simp
        omega
      | cons first before =>
        obtain ⟨rfl, rfl⟩ := List.cons.inj hs
        have hrest : lines s = piece :: before ++ [last] := hpiece
        rw [ih hrest]
        simp

/-- The position at the end of a text that goes on. -/
theorem positionOfOffset_append {s : List Char} {before : List (List Char)} {last : List Char}
    (hs : lines s = before ++ [last]) (t : List Char) :
    positionOfOffset (s ++ t) s.length = ⟨before.length, last.length⟩ := by
  have hclamp : clampIndex (s ++ t).length s.length = s.length :=
    clampIndex_ofNat_of_le (by rw [List.length_append]; omega)
  rw [positionOfOffset, hclamp]
  dsimp only
  rw [lineColumnAfter_append hs, Position.mk.injEq]
  refine ⟨by omega, ?_⟩
  split <;> omega

/-- What comes later in a text has a later position. -/
theorem positionOfOffset_append_lt {s t u : List Char} (ht : t ≠ []) :
    (positionOfOffset (s ++ t ++ u) s.length).lt (positionOfOffset (s ++ t ++ u) (s ++ t).length) = true := by
  obtain ⟨before, last, hs⟩ := exists_lines_eq_concat s
  obtain ⟨between, last', hlines⟩ := exists_lines_eq_concat t
  have hstart : positionOfOffset (s ++ t ++ u) s.length = ⟨before.length, last.length⟩ := by
    rw [List.append_assoc]
    exact positionOfOffset_append hs _
  rw [hstart, Position.lt_iff]
  cases between with
  | nil =>
    have hone : last' ≠ [] := by
      rintro rfl
      rw [← unlines_lines t, hlines] at ht
      exact ht rfl
    have := List.length_pos_iff.mpr hone
    rw [positionOfOffset_append (lines_append hs hlines), List.length_append]
    right
    dsimp only
    omega
  | cons line between =>
    have hmore : lines (s ++ t) = before ++ (last ++ line) :: between ++ [last'] := by
      rw [lines_append hs hlines, List.append_assoc]
      rfl
    rw [positionOfOffset_append hmore, List.length_append, List.length_cons]
    left
    dsimp only
    omega

/-- The parts of a text before, between and after two offsets. -/
theorem exists_parts {source : List Char} {a b : Nat} (hab : a ≤ b) (hb : b ≤ source.length) :
    ∃ s t u, source = s ++ t ++ u ∧ s.length = a ∧ (s ++ t).length = b := by
  refine ⟨source.take a, (source.take b).drop a, source.drop b, ?_, List.length_take_of_le (by omega), ?_⟩
  · have hfront : source.take a ++ (source.take b).drop a = source.take b := by
      have := List.take_append_drop a (source.take b)
      rwa [List.take_take, Nat.min_eq_left hab] at this
    rw [hfront, List.take_append_drop]
  · rw [List.length_append, List.length_drop, List.length_take_of_le hb, List.length_take_of_le (by omega)]
    omega

/-- **Positions are in the order of their offsets.** -/
theorem positionOfOffset_lt {source : List Char} {a b : Nat} (h : a < b) (hb : b ≤ source.length) :
    (positionOfOffset source a).lt (positionOfOffset source b) = true := by
  obtain ⟨s, t, u, rfl, rfl, rfl⟩ := exists_parts (Nat.le_of_lt h) hb
  apply positionOfOffset_append_lt
  rintro rfl
  rw [List.append_nil] at h
  exact Nat.lt_irrefl _ h

theorem positionOfOffset_le {source : List Char} {a b : Nat} (h : a ≤ b) (hb : b ≤ source.length) :
    (positionOfOffset source a).le (positionOfOffset source b) = true := by
  rcases Nat.eq_or_lt_of_le h with rfl | h
  · exact Position.le_refl _
  · exact Position.le_of_lt (positionOfOffset_lt h hb)

/-- Something comes between two places unless their positions are the same. -/
theorem eq_nil_of_positionOfOffset {s t u : List Char}
    (h : positionOfOffset (s ++ t ++ u) s.length = positionOfOffset (s ++ t ++ u) (s ++ t).length) :
    t = [] := by
  by_cases ht : t = []
  · exact ht
  · have hlt : (positionOfOffset (s ++ t ++ u) s.length).lt
        (positionOfOffset (s ++ t ++ u) (s ++ t).length) = true := positionOfOffset_append_lt ht
    rw [h] at hlt
    simp [Position.lt] at hlt

/-- **Two places in a text have different positions.** -/
theorem eq_of_positionOfOffset {before rest before' rest' : List Char}
    (hsource : before ++ rest = before' ++ rest')
    (h : positionOfOffset (before ++ rest) before.length =
      positionOfOffset (before ++ rest) before'.length) : before = before' := by
  rcases List.append_eq_append_iff.mp hsource with ⟨t, rfl, rfl⟩ | ⟨t, rfl, rfl⟩
  · rw [← List.append_assoc] at h
    rw [eq_nil_of_positionOfOffset h, List.append_nil]
  · rw [eq_nil_of_positionOfOffset h.symm, List.append_nil]

theorem not_after_last {ls : List (List Char)} {n : Nat} (h : n < ls.length) :
    ¬(ls.isEmpty || decide ((n : Int) ≥ ls.length)) = true := by
  rw [Bool.or_eq_true, decide_eq_true_iff, List.isEmpty_iff, ← List.length_eq_zero_iff]
  omega

/-- A part of one line. -/
theorem sliceLines_of_one {before after : List (List Char)} (x y z : List Char) :
    sliceLines (before ++ (x ++ y ++ z) :: after)
      ⟨⟨before.length, x.length⟩, ⟨before.length, (x ++ y).length⟩⟩ = y := by
  have hstart : clampIndex (x ++ y ++ z).length x.length = x.length :=
    clampIndex_ofNat_of_le (by simp only [List.length_append]; omega)
  have hstop : clampIndex (x ++ y ++ z).length (x ++ y).length = (x ++ y).length :=
    clampIndex_ofNat_of_le (by simp only [List.length_append]; omega)
  have hlast : min (before.length : Int)
      ((before ++ (x ++ y ++ z) :: after).length - 1 : Int) = before.length := by
    rw [List.length_append, List.length_cons]
    omega
  have hline : (before ++ (x ++ y ++ z) :: after).getD before.length [] = x ++ y ++ z := by
    simp [List.getD_eq_getElem?_getD]
  have hinside : before.length < (before ++ (x ++ y ++ z) :: after).length := by
    rw [List.length_append, List.length_cons]
    omega
  rw [sliceLines, if_neg (not_after_last hinside)]
  dsimp only
  rw [hlast]
  simp only [Int.max_eq_left (Int.natCast_nonneg _), Int.toNat_natCast, if_neg (Int.lt_irrefl _),
    if_true, hline, slice, hstart, hstop]
  rw [List.take_left, List.drop_left]

/-- A part of several lines. -/
theorem sliceLines_of_more {before between after : List (List Char)} (x y z w : List Char) :
    sliceLines (before ++ (x ++ y) :: between ++ (z ++ w) :: after)
      ⟨⟨before.length, x.length⟩, ⟨(before ++ (x ++ y) :: between).length, z.length⟩⟩ =
        unlines (y :: between ++ [z]) := by
  have hstart : clampIndex (x ++ y).length x.length = x.length :=
    clampIndex_ofNat_of_le (by simp only [List.length_append]; omega)
  have hstop : clampIndex (z ++ w).length z.length = z.length :=
    clampIndex_ofNat_of_le (by simp only [List.length_append]; omega)
  have hlast : min ((before ++ (x ++ y) :: between).length : Int)
      ((before ++ (x ++ y) :: between ++ (z ++ w) :: after).length - 1 : Int) =
        (before ++ (x ++ y) :: between).length := by
    simp only [List.length_append, List.length_cons]
    omega
  have hfirst : (before ++ (x ++ y) :: between ++ (z ++ w) :: after).getD before.length [] =
      x ++ y := by
    simp [List.getD_eq_getElem?_getD]
  have hline : (before ++ (x ++ y) :: between ++ (z ++ w) :: after).getD
      (before ++ (x ++ y) :: between).length [] = z ++ w := by
    simp [List.getD_eq_getElem?_getD]
  have hlines : ((before ++ (x ++ y) :: between ++ (z ++ w) :: after).take
      (before ++ (x ++ y) :: between).length).drop (before.length + 1) = between := by
    rw [List.take_left]
    simp
  have horder : before.length < (before ++ (x ++ y) :: between).length := by
    rw [List.length_append, List.length_cons]
    omega
  have hinside : before.length < (before ++ (x ++ y) :: between ++ (z ++ w) :: after).length := by
    rw [List.length_append]
    omega
  rw [sliceLines, if_neg (not_after_last hinside)]
  dsimp only
  rw [hlast]
  simp only [Int.max_eq_left (Int.natCast_nonneg _), Int.toNat_natCast]
  rw [if_neg (by omega), if_neg (by omega), if_true, hfirst, hline, hlines, sliceFrom, sliceTo, hstart,
    hstop, List.drop_left, List.take_left]
  rfl

/-- **What stands between the positions of two offsets** is what stands between the offsets. -/
theorem textIn_positionOfOffset (s mid t : List Char) :
    textIn (s ++ mid ++ t)
      ⟨positionOfOffset (s ++ mid ++ t) s.length,
        positionOfOffset (s ++ mid ++ t) (s ++ mid).length⟩ = mid := by
  obtain ⟨before, last, hs⟩ := exists_lines_eq_concat s
  obtain ⟨first, after, ht⟩ := exists_lines_eq_cons t
  obtain ⟨between, last', hmid⟩ := exists_lines_eq_concat mid
  have hstart : positionOfOffset (s ++ mid ++ t) s.length = ⟨before.length, last.length⟩ := by
    rw [List.append_assoc]
    exact positionOfOffset_append hs _
  rw [textIn, hstart]
  cases between with
  | nil =>
    have hone : lines (s ++ mid) = before ++ [last ++ last'] := lines_append hs hmid
    rw [positionOfOffset_append hone, lines_append hone ht, sliceLines_of_one, ← unlines_lines mid,
      hmid]
    simp [unlines, joinWith]
  | cons line between =>
    have hmore : lines (s ++ mid) = before ++ (last ++ line) :: between ++ [last'] := by
      rw [lines_append hs hmid, List.append_assoc]
      rfl
    rw [positionOfOffset_append hmore, lines_append hmore ht, sliceLines_of_more, ← hmid,
      unlines_lines]

/-- **A cut by positions is the cut by offsets.** -/
theorem textIn_eq_drop_take (content : List Char) {a b : Nat} (hab : a ≤ b)
    (hb : b ≤ content.length) :
    textIn content ⟨positionOfOffset content a, positionOfOffset content b⟩ =
      (content.take b).drop a := by
  obtain ⟨s, t, u, rfl, rfl, rfl⟩ := exists_parts hab hb
  rw [textIn_positionOfOffset, List.take_left, List.drop_left]

end Vicinity
