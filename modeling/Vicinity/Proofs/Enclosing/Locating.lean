import Vicinity.Enclosing
import Mathlib.Data.List.Range

/-!
# Locating a unit of code

Of the entries that enclose a position, going through them in order gives the one that beats all the
others: its size is preferred, or is the same and it comes first. What `locate` then gives is cut out
of the document: that entry with its own name and span, or the whole document. Looking for the largest
unit always gives one, since the whole document stands in where no symbol does; looking for the
smallest one gives none if the entry that beats the others starts on another line.

## What is proved

* `bestEntry_eq_some`: the entry found is the one that beats all others.
* `Outline.findEnclosing_smallest`: the entry found for the smallest extent.
* `exists_unitAt_of_locate`, `exists_locate_largest`, `locate_smallest`: what is located.
-/

namespace Vicinity

/-- The columns of the span lie within what a line counts for. -/
structure Span.InWidth (s : Span) : Prop where
  start_nonneg : 0 ≤ s.start.column
  stop_nonneg : 0 ≤ s.stop.column
  stop_lt : s.stop.column < Span.lineWeight

/-! ### The entry that beats the others -/

section Best

variable {extent : Extent} {x y z : Nat × OutlineEntry}

/-- Whether an entry is chosen over another one: its size is preferred, or is the same and it comes
first. -/
def Extent.Beats (extent : Extent) (x y : Nat × OutlineEntry) : Prop :=
  extent.prefers x.2.span.size y.2.span.size ∨ x.2.span.size = y.2.span.size ∧ x.1 < y.1

instance : Decidable (extent.Beats x y) := inferInstanceAs (Decidable (_ ∨ _))

theorem Extent.Beats.trans (hxy : extent.Beats x y) (hyz : extent.Beats y z) :
    extent.Beats x z := by
  cases extent <;> simp only [Beats, prefers, decide_eq_true_eq] at * <;> omega

theorem Extent.Beats.asymm (hxy : extent.Beats x y) : ¬ extent.Beats y x := by
  cases extent <;> simp only [Beats, prefers, decide_eq_true_eq] at * <;> omega

/-- Nothing that comes later beats an entry unless its size is preferred. -/
theorem Extent.beats_of_not_prefers (hindex : x.1 < y.1)
    (h : ¬ extent.prefers y.2.span.size x.2.span.size) : extent.Beats x y := by
  cases extent <;> simp only [Beats, prefers, decide_eq_true_eq] at * <;> omega

/-- Going on from an entry gives one that beats all the others. -/
theorem exists_bestEntry (extent : Extent) {best : Nat × OutlineEntry}
    {xs : List (Nat × OutlineEntry)} (hindex : (best :: xs).Pairwise (·.1 < ·.1)) :
    ∃ c ∈ best :: xs, bestEntry extent xs (some best) = some c ∧
      ∀ y ∈ best :: xs, y = c ∨ extent.Beats c y := by
  induction xs generalizing best with
  | nil => exact ⟨best, by simp, rfl, by simp⟩
  | cons x xs ih =>
    obtain ⟨hbest, hrest⟩ := List.pairwise_cons.mp hindex
    by_cases hx : extent.prefers x.2.span.size best.2.span.size
    · obtain ⟨c, hc, hrun, hbeats⟩ := ih hrest
      refine ⟨c, List.mem_cons_of_mem _ hc, by simp only [bestEntry, hx, if_true, hrun], ?_⟩
      intro y hy
      rcases List.mem_cons.mp hy with rfl | hy
      · -- the entry left behind is beaten by `x`, and `x` by the one found
        have hxy : extent.Beats x y := .inl hx
        rcases hbeats x List.mem_cons_self with rfl | hcx
        · exact .inr hxy
        · exact .inr (hcx.trans hxy)
      · exact hbeats y hy
    · have hskip : (best :: xs).Pairwise (·.1 < ·.1) :=
        hindex.sublist ((List.sublist_cons_self x xs).cons_cons best)
      obtain ⟨c, hc, hrun, hbeats⟩ := ih hskip
      refine ⟨c, ?_, by simp only [bestEntry, hx]; exact hrun, ?_⟩
      · rcases List.mem_cons.mp hc with rfl | hc
        · exact List.mem_cons_self
        · exact List.mem_cons_of_mem _ (List.mem_cons_of_mem _ hc)
      · intro y hy
        rcases List.mem_cons.mp hy with rfl | hy
        · exact hbeats y List.mem_cons_self
        rcases List.mem_cons.mp hy with rfl | hy
        · have hby := Extent.beats_of_not_prefers (hbest y List.mem_cons_self) hx
          rcases hbeats best List.mem_cons_self with rfl | hcb
          · exact .inr hby
          · exact .inr (hcb.trans hby)
        · exact hbeats y (List.mem_cons_of_mem _ hy)

/-- **The best entry is the one that beats all others.** -/
theorem bestEntry_eq_some {xs : List (Nat × OutlineEntry)} (hindex : xs.Pairwise (·.1 < ·.1))
    {c : Nat × OutlineEntry} :
    bestEntry extent xs none = some c ↔ c ∈ xs ∧ ∀ y ∈ xs, y = c ∨ extent.Beats c y := by
  cases xs with
  | nil => simp [bestEntry]
  | cons x xs =>
    obtain ⟨b, hb, hrun, hbeats⟩ := exists_bestEntry extent hindex
    rw [bestEntry, hrun, Option.some.injEq]
    constructor
    · rintro rfl
      exact ⟨hb, hbeats⟩
    · rintro ⟨hc, hall⟩
      rcases hbeats c hc with rfl | hbc
      · rfl
      · rcases hall b hb with rfl | hcb
        · rfl
        · exact absurd hcb hbc.asymm

theorem bestEntry_isSome (extent : Extent) {xs : List (Nat × OutlineEntry)}
    (hindex : xs.Pairwise (·.1 < ·.1)) (hxs : xs ≠ []) : ∃ c, bestEntry extent xs none = some c := by
  obtain ⟨x, xs, rfl⟩ := List.exists_cons_of_ne_nil hxs
  obtain ⟨c, -, hrun, -⟩ := exists_bestEntry extent hindex
  exact ⟨c, hrun⟩

end Best

/-! ### Enclosing entries -/

namespace Outline

variable (outline : Outline) (doc : Document)

/-- The entries that enclose a position come in the order of their indexes. -/
theorem pairwise_enclosing (position : Position) (includeTypes : Bool) :
    (outline.enclosing doc position includeTypes).Pairwise (·.1 < ·.1) := by
  refine List.Pairwise.filter _ ?_
  have hindex : (outline.entries.zipIdx.map (·.2)).Pairwise (· < ·) := by
    rw [List.zipIdx_map_snd]
    exact List.pairwise_lt_range' 1
  rw [List.pairwise_map] at hindex ⊢
  exact hindex

/-- The smallest entry found: it beats all that enclose the position, and starts on its line. -/
theorem findEnclosing_smallest {position : Position} {includeTypes : Bool}
    {c : Nat × OutlineEntry} :
    outline.findEnclosing doc position .smallest includeTypes = some c ↔
      (c ∈ outline.enclosing doc position includeTypes ∧
        ∀ y ∈ outline.enclosing doc position includeTypes, y = c ∨ Extent.smallest.Beats c y) ∧
        c.2.span.start.line = position.line := by
  rw [← bestEntry_eq_some (outline.pairwise_enclosing doc position includeTypes)]
  unfold findEnclosing
  cases bestEntry .smallest (outline.enclosing doc position includeTypes) none with
  | none => simp
  | some best =>
    simp only [decide_true, Bool.true_and, bne_iff_ne, ne_eq, ite_not,
      Option.ite_none_right_eq_some, Option.some.injEq]
    constructor
    · rintro ⟨hline, rfl⟩
      exact ⟨rfl, hline⟩
    · rintro ⟨rfl, hline⟩
      exact ⟨hline, rfl⟩

end Outline

/-! ### What is located -/

section Locate

variable {doc : Document} {symbols : List Symbol} {position : Position} {root : Option String}
  {includeTypes fallback : Bool}

/-- What is located is a unit of the document. -/
theorem exists_unitAt_of_locate {extent : Extent} {unit : CodeUnit}
    (h : locate doc symbols position root extent includeTypes fallback = some unit) :
    ∃ name span, unit = doc.unitAt name span root := by
  unfold locate at h
  dsimp only at h
  split at h
  · cases h
    exact ⟨_, _, rfl⟩
  · split at h
    · cases h
    · split at h
      · cases h
        exact ⟨_, _, rfl⟩
      · cases h

/-- There is always a largest unit around a position. -/
theorem exists_locate_largest (doc : Document) (symbols : List Symbol) (position : Position)
    (root : Option String) (includeTypes : Bool) :
    ∃ unit, locate doc symbols position root .largest includeTypes true = some unit := by
  unfold locate
  dsimp only
  split
  · exact ⟨_, rfl⟩
  · exact ⟨doc.unitAt entireDocument doc.whole root, rfl⟩

/-- Where something encloses the position, the smallest unit is the smallest entry found. -/
theorem locate_smallest
    (h : (Outline.ofSymbols symbols).enclosing doc position includeTypes ≠ []) :
    locate doc symbols position root .smallest includeTypes fallback =
      ((Outline.ofSymbols symbols).findEnclosing doc position .smallest includeTypes).map
        fun found => doc.unitAt found.2.name found.2.span root := by
  unfold locate
  dsimp only
  cases (Outline.ofSymbols symbols).findEnclosing doc position .smallest includeTypes with
  | none => simp [h]
  | some found => rfl

end Locate

end Vicinity
