import Vicinity.Proofs.Enclosing.Locating
import Vicinity.Proofs.Symbol.Outlines

/-!
# The largest enclosing symbol

Where every symbol lies within its parent, the largest of the symbols that enclose a position is an
outermost one: a parent is at least as large as its children, and comes before them. Symbols over several
lines are larger than those on one line, if columns stay below the weight of a line.

## What is proved

* `Span.size_le_of_covers`: a span is at least as large as what it covers.
* `Span.lineWeight_le_size_iff`: which spans are as large as a line.
* `WithinParents.ancestor_covers`: an ancestor comes before an entry and covers it.
* `Outline.largest_of_findEnclosing`: the entry found for the largest extent.
* `findEnclosing_outermost`: it is an outermost one.
-/

namespace Vicinity

/-! ### Sizes of spans -/

namespace Span

variable {s t u : Span}

theorem covers_trans (hst : s.covers t) (htu : t.covers u) : s.covers u := by
  simp only [covers_iff, contains_iff] at *
  obtain ⟨⟨hstart, -⟩, -, hstop⟩ := hst
  obtain ⟨⟨hstart', hwithin⟩, hwithin', hstop'⟩ := htu
  exact ⟨⟨Position.le_trans hstart hstart', Position.le_trans hwithin hstop⟩,
    Position.le_trans hstart hwithin', Position.le_trans hstop' hstop⟩

theorem covers_contains (hst : s.covers t) {p : Position} (hp : t.contains p) : s.contains p := by
  simp only [covers_iff, contains_iff] at *
  exact ⟨Position.le_trans hst.1.1 hp.1, Position.le_trans hp.2 hst.2.2⟩

/-- A span is at least as large as what it covers. -/
theorem size_le_of_covers (h : s.covers t) (hs : s.InWidth) (ht : t.InWidth) : t.size ≤ s.size := by
  obtain ⟨hs₀, hs₁, hs₂⟩ := hs
  obtain ⟨ht₀, ht₁, ht₂⟩ := ht
  have hweight : lineWeight = 9007199254740992 := by decide
  simp only [covers_iff, contains_iff, Position.le_iff] at h
  simp only [size, isSingleLine, beq_iff_eq, hweight] at *
  split_ifs <;> omega

/-- A span is as large as a line exactly if it has several lines. -/
theorem lineWeight_le_size_iff (hs : s.InWidth) {p : Position} (hp : s.contains p) :
    lineWeight ≤ s.size ↔ s.isSingleLine = false := by
  obtain ⟨hs₀, hs₁, hs₂⟩ := hs
  have hweight : lineWeight = 9007199254740992 := by decide
  simp only [contains_iff, Position.le_iff] at hp
  simp only [size, isSingleLine, beq_iff_eq, beq_eq_false_iff_ne, hweight] at *
  split_ifs <;> omega

end Span

/-! ### Ancestors -/

/-- Every symbol of a forest lies within its parent, and its columns within what a line counts for. -/
structure WithinParents (symbols : List Symbol) : Prop where
  covers : ∀ s ∈ Symbol.preorder symbols, ∀ child ∈ s.children, s.span.covers child.span
  inWidth : ∀ s ∈ Symbol.preorder symbols, s.span.InWidth

section

variable {symbols : List Symbol} {i k : Nat} {e f : OutlineEntry}

theorem WithinParents.inWidth_of_entry (h : WithinParents symbols)
    (he : e ∈ (Outline.ofSymbols symbols).entries) : e.span.InWidth := by
  obtain ⟨k, hk⟩ := List.mem_iff_getElem?.mp he
  obtain ⟨s, hs, hflat⟩ := Outline.exists_symbol hk
  rw [← show s.span = e.span from congrArg FlatSymbol.span hflat]
  exact h.inWidth s (List.mem_of_getElem? hs)

/-- A parent comes before its child and covers it. -/
theorem WithinParents.exists_parent (h : WithinParents symbols)
    (he : (Outline.ofSymbols symbols).entries[k]? = some e) (hparent : e.parent = some i) :
    i < k ∧ ∃ f, (Outline.ofSymbols symbols).entries[i]? = some f ∧ f.span.covers e.span := by
  obtain ⟨hi, f, hf, q, hq, s, hchild, hshown, hflat⟩ := Outline.exists_parent he hparent
  refine ⟨hi, f, hf, ?_⟩
  rw [← show s.span = e.span from congrArg FlatSymbol.span hflat,
    ← show q.span = f.span from congrArg FlatSymbol.span hshown]
  exact h.covers q hq s hchild

/-- **An ancestor comes before an entry and covers it.** -/
theorem WithinParents.ancestor_covers (h : WithinParents symbols)
    (hancestor : (Outline.ofSymbols symbols).Ancestor i k)
    (he : (Outline.ofSymbols symbols).entries[k]? = some e)
    (hf : (Outline.ofSymbols symbols).entries[i]? = some f) : i < k ∧ f.span.covers e.span := by
  induction hancestor generalizing e with
  | parent he' hparent =>
    obtain rfl := Option.some.inj (he.symm.trans he')
    obtain ⟨hi, p, hp, hcovers⟩ := h.exists_parent he hparent
    obtain rfl := Option.some.inj (hf.symm.trans hp)
    exact ⟨hi, hcovers⟩
  | above he' hparent hup ih =>
    obtain rfl := Option.some.inj (he.symm.trans he')
    obtain ⟨hj, p, hp, hcovers⟩ := h.exists_parent he hparent
    obtain ⟨hi, hcoversParent⟩ := ih hp
    exact ⟨Nat.lt_trans hi hj, Span.covers_trans hcoversParent hcovers⟩

end

/-! ### The entry that is found -/

namespace Outline

variable (outline : Outline) (doc : Document) {position : Position} {includeTypes : Bool}

/-- The entries that enclose a position are those that contain it and count. -/
theorem mem_enclosing_iff {f : Nat × OutlineEntry} :
    f ∈ outline.enclosing doc position includeTypes ↔
      outline.entries[f.1]? = some f.2 ∧ f.2.span.contains position ∧
        outline.qualifies doc.languageId doc.lines includeTypes f.2 := by
  rw [enclosing, List.mem_filter, List.mem_map, Bool.and_eq_true]
  refine and_congr_left fun _ => ⟨?_, fun hf => ?_⟩
  · rintro ⟨⟨e, i⟩, he, rfl⟩
    exact List.mk_mem_zipIdx_iff_getElem?.mp he
  · exact ⟨(f.2, f.1), List.mk_mem_zipIdx_iff_getElem?.mpr hf, rfl⟩

/-- The largest entry found beats all that enclose the position. -/
theorem findEnclosing_largest {c : Nat × OutlineEntry} :
    outline.findEnclosing doc position .largest includeTypes = some c ↔
      c ∈ outline.enclosing doc position includeTypes ∧
        ∀ y ∈ outline.enclosing doc position includeTypes, y = c ∨ Extent.largest.Beats c y := by
  rw [← bestEntry_eq_some (outline.pairwise_enclosing doc position includeTypes)]
  unfold findEnclosing
  cases bestEntry .largest (outline.enclosing doc position includeTypes) none <;> simp

/-- What is found is the first of the largest entries that count and contain the position. -/
theorem largest_of_findEnclosing {i : Nat} {e : OutlineEntry}
    (h : outline.findEnclosing doc position .largest includeTypes = some (i, e)) :
    outline.entries[i]? = some e ∧ e.span.contains position ∧
      outline.qualifies doc.languageId doc.lines includeTypes e ∧
      ∀ j f, outline.entries[j]? = some f → f.span.contains position →
        outline.qualifies doc.languageId doc.lines includeTypes f →
        f.span.size < e.span.size ∨ f.span.size = e.span.size ∧ i ≤ j := by
  obtain ⟨hmem, hbeats⟩ := (outline.findEnclosing_largest doc).mp h
  obtain ⟨hi, hcontains, hcounts⟩ := (outline.mem_enclosing_iff doc).mp hmem
  refine ⟨hi, hcontains, hcounts, fun j f hj hfcontains hfcounts => ?_⟩
  rcases hbeats (j, f) ((outline.mem_enclosing_iff doc).mpr ⟨hj, hfcontains, hfcounts⟩) with
    heq | hsmaller | ⟨hsame, hlater⟩
  · cases heq
    exact .inr ⟨rfl, Nat.le_refl _⟩
  · exact .inl (of_decide_eq_true hsmaller)
  · exact .inr ⟨hsame.symm, Nat.le_of_lt hlater⟩

/-- None is found exactly if none encloses the position. -/
theorem findEnclosing_largest_eq_none :
    outline.findEnclosing doc position .largest includeTypes = none ↔
      outline.enclosing doc position includeTypes = [] := by
  have hindex := outline.pairwise_enclosing doc position includeTypes
  unfold findEnclosing
  constructor
  · intro hnone
    by_contra hsome
    obtain ⟨c, hc⟩ := bestEntry_isSome .largest hindex hsome
    simp [hc] at hnone
  · intro hnone
    rw [hnone]
    rfl

end Outline

variable {symbols : List Symbol}

/-- **The largest enclosing symbol is an outermost one.** In a forest whose symbols lie within their
parents, nothing is found exactly if no symbol that counts contains the position; what is found counts
and contains it, has no ancestor that counts, is at least as large as every other one that counts and
contains the position, and has several lines if any of these has. -/
theorem findEnclosing_outermost (h : WithinParents symbols) (doc : Document) (position : Position)
    (includeTypes : Bool) :
    let outline := Outline.ofSymbols symbols
    let counts (e : OutlineEntry) := outline.qualifies doc.languageId doc.lines includeTypes e
    (outline.findEnclosing doc position .largest includeTypes = none ↔
      ∀ e ∈ outline.entries, counts e → ¬e.span.contains position) ∧
    ∀ i e, outline.findEnclosing doc position .largest includeTypes = some (i, e) →
      outline.entries[i]? = some e ∧ counts e ∧ e.span.contains position ∧
      (∀ j f, outline.Ancestor j i → outline.entries[j]? = some f → ¬counts f) ∧
      ∀ f ∈ outline.entries, counts f → f.span.contains position →
        f.span.size ≤ e.span.size ∧ (f.span.isSingleLine = false → e.span.isSingleLine = false) := by
  intro outline counts
  refine ⟨?_, fun i e hfound => ?_⟩
  · rw [outline.findEnclosing_largest_eq_none doc, List.eq_nil_iff_forall_not_mem]
    constructor
    · intro hnone e he hcounts hcontains
      obtain ⟨i, hi⟩ := List.mem_iff_getElem?.mp he
      exact hnone (i, e) ((outline.mem_enclosing_iff doc).mpr ⟨hi, hcontains, hcounts⟩)
    · rintro hnone ⟨i, e⟩ hmem
      obtain ⟨hi, hcontains, hcounts⟩ := (outline.mem_enclosing_iff doc).mp hmem
      exact hnone e (List.mem_of_getElem? hi) hcounts hcontains
  · obtain ⟨hi, hcontains, hcounts, hlargest⟩ := outline.largest_of_findEnclosing doc hfound
    refine ⟨hi, hcounts, hcontains, fun j f hancestor hj hf => ?_, fun f hf hfcounts hfcontains => ?_⟩
    · -- an ancestor is at least as large, and comes first
      obtain ⟨hbefore, hcovers⟩ := h.ancestor_covers hancestor hi hj
      have hsize : e.span.size ≤ f.span.size :=
        Span.size_le_of_covers hcovers (h.inWidth_of_entry (List.mem_of_getElem? hj))
          (h.inWidth_of_entry (List.mem_of_getElem? hi))
      rcases hlargest j f hj (Span.covers_contains hcovers hcontains) hf with hlt | ⟨-, hle⟩ <;> omega
    · obtain ⟨j, hj⟩ := List.mem_iff_getElem?.mp hf
      have hsize : f.span.size ≤ e.span.size := by
        rcases hlargest j f hj hfcontains hfcounts with hlt | ⟨heq, -⟩ <;> omega
      refine ⟨hsize, fun hlines => ?_⟩
      have hfwidth := h.inWidth_of_entry hf
      have hewidth := h.inWidth_of_entry (List.mem_of_getElem? hi)
      rw [← Span.lineWeight_le_size_iff hfwidth hfcontains] at hlines
      rw [← Span.lineWeight_le_size_iff hewidth hcontains]
      exact Int.le_trans hlines hsize

/-- A class with a method that has a function of its own. -/
def nestedUnits : Document :=
  ⟨"/a.py", "python", "class C:\n  def m():\n    def g():\n      pass\n    return g\n"⟩

def nestedSymbols : List Symbol :=
  [⟨"C", .class, .of 0 0 4 12,
    [⟨"m", .method, .of 1 2 4 12, [⟨"g", .function, .of 2 4 3 10, []⟩]⟩]⟩]

/-- Inside the inner function the method is found; the class around it does not count. -/
theorem findEnclosing_outermost_method :
    WithinParents nestedSymbols ∧
      (Outline.ofSymbols nestedSymbols).findEnclosing nestedUnits ⟨3, 6⟩ .largest false =
        some (1, ⟨"m", .method, .of 1 2 4 12, some 0⟩) ∧
      ∀ j f, (Outline.ofSymbols nestedSymbols).Ancestor j 1 →
        (Outline.ofSymbols nestedSymbols).entries[j]? = some f →
        ¬(Outline.ofSymbols nestedSymbols).qualifies nestedUnits.languageId nestedUnits.lines false f := by
  have hwidth : ∀ s ∈ Symbol.preorder nestedSymbols, 0 ≤ s.span.start.column ∧
      0 ≤ s.span.stop.column ∧ s.span.stop.column < Span.lineWeight := by decide +kernel
  have hwithin : WithinParents nestedSymbols :=
    ⟨by decide +kernel, fun s hs => ⟨(hwidth s hs).1, (hwidth s hs).2.1, (hwidth s hs).2.2⟩⟩
  have hfound : (Outline.ofSymbols nestedSymbols).findEnclosing nestedUnits ⟨3, 6⟩ .largest false =
      some (1, ⟨"m", .method, .of 1 2 4 12, some 0⟩) := by decide +kernel
  obtain ⟨-, -, -, hancestors, -⟩ :=
    (findEnclosing_outermost hwithin nestedUnits ⟨3, 6⟩ false).2 _ _ hfound
  exact ⟨hwithin, hfound, hancestors⟩

end Vicinity
