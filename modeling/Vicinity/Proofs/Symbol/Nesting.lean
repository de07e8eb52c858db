import Vicinity.Proofs.Symbol.Outlines

/-!
# Nesting as a search for parents

Nesting goes once over the symbols in document order and keeps a stack of open ones. What is taken off
the stack is never looked at again, although it may still cover symbols to come: spans may overlap in
part. But then the symbol that had it taken off covers those as well, and comes later. So each symbol
ends up under the last one before it that covers it, as if all symbols before it had been searched.

## What is proved

* `InDocumentOrder.unique`, `inDocumentOrder_mergeSort`: there is one way to put symbols in document
  order.
* `outlined_cons`: closing an open symbol adds its entries at the end of the outline.
* `Nesting.step`: what one more symbol does to the outline of the symbols so far.
* `nest_parents`: the forest that nesting gives.
-/

namespace Vicinity

/-! ### Document order -/

theorem Position.eq_iff {p q : Position} : p = q ↔ p.line = q.line ∧ p.column = q.column := by
  cases p
  cases q
  exact Position.mk.injEq ..▸ Iff.rfl

theorem Span.eq_iff {s t : Span} : s = t ↔ s.start = t.start ∧ s.stop = t.stop := by
  cases s
  cases t
  exact Span.mk.injEq ..▸ Iff.rfl

namespace FlatSymbol

variable {a b c : FlatSymbol}

theorem le_iff : a.le b ↔ a.span.start.lt b.span.start ∨
    a.span.start = b.span.start ∧ b.span.stop.le a.span.stop := by
  unfold FlatSymbol.le
  split <;> simp only [Position.le_iff, Position.lt_iff, Position.eq_iff] at * <;> omega

theorem le_trans (h : a.le b) (h' : b.le c) : a.le c := by
  simp only [le_iff, Position.le_iff, Position.lt_iff, Position.eq_iff] at *
  omega

theorem le_total (a b : FlatSymbol) : a.le b || b.le a := by
  simp only [Bool.or_eq_true, le_iff, Position.le_iff, Position.lt_iff, Position.eq_iff]
  omega

/-- Symbols that may come in either order have the same span. -/
theorem span_eq_of_le (h : a.le b) (h' : b.le a) : a.span = b.span := by
  simp only [le_iff, Position.le_iff, Position.lt_iff, Position.eq_iff] at h h'
  rw [Span.eq_iff, Position.eq_iff, Position.eq_iff]
  omega

theorem start_le_of_le (h : a.le b) : a.span.start.le b.span.start := by
  rcases le_iff.mp h with hlt | ⟨heq, -⟩
  · exact Position.le_of_lt hlt
  · rw [heq]
    exact Position.le_refl _

theorem le_of_span_eq (h : a.span = b.span) : a.le b := by
  rw [le_iff, h]
  exact .inr ⟨rfl, Position.le_refl _⟩

/-- The entry of a symbol in an outline. -/
def entry (s : FlatSymbol) (parent : Option Nat) : OutlineEntry := ⟨s.name, s.kind, s.span, parent⟩

end FlatSymbol

/-- A list has the given symbols in document order; those with the same span stay in the order in which
they are given. -/
structure InDocumentOrder (symbols ordered : List FlatSymbol) : Prop where
  perm : ordered.Perm symbols
  sorted : ordered.Pairwise fun a b => a.le b
  stable : ∀ span, ordered.filter (·.span = span) = symbols.filter (·.span = span)

/-- It is enough to look at the spans that occur. -/
theorem InDocumentOrder.of_occurring {symbols ordered : List FlatSymbol} (hperm : ordered.Perm symbols)
    (hsorted : ordered.Pairwise fun a b => a.le b)
    (h : ∀ s ∈ symbols, ordered.filter (·.span = s.span) = symbols.filter (·.span = s.span)) :
    InDocumentOrder symbols ordered := by
  refine ⟨hperm, hsorted, fun span => ?_⟩
  by_cases hoccurs : ∃ s ∈ symbols, s.span = span
  · obtain ⟨s, hs, rfl⟩ := hoccurs
    exact h s hs
  · have hnone : ∀ s ∈ symbols, ¬decide (s.span = span) = true := fun s hs heq =>
      hoccurs ⟨s, hs, of_decide_eq_true heq⟩
    rw [List.filter_eq_nil_iff.mpr hnone,
      List.filter_eq_nil_iff.mpr fun s hs => hnone s (hperm.subset hs)]

theorem inDocumentOrder_mergeSort (symbols : List FlatSymbol) :
    InDocumentOrder symbols (symbols.mergeSort FlatSymbol.le) := by
  have htrans : ∀ a b c : FlatSymbol, a.le b → b.le c → a.le c := fun _ _ _ => FlatSymbol.le_trans
  have hperm := List.mergeSort_perm symbols FlatSymbol.le
  refine ⟨hperm, List.pairwise_mergeSort htrans FlatSymbol.le_total _, fun span => ?_⟩
  have hpairs : (symbols.filter (·.span = span)).Pairwise fun a b => a.le b := by
    refine List.pairwise_of_forall_mem_list fun a ha b hb => FlatSymbol.le_of_span_eq ?_
    rw [of_decide_eq_true (List.mem_filter.mp ha).2, of_decide_eq_true (List.mem_filter.mp hb).2]
  have hsublist := (List.sublist_mergeSort htrans FlatSymbol.le_total hpairs
    List.filter_sublist).filter (·.span = span)
  rw [List.filter_filter] at hsublist
  simp only [Bool.and_self] at hsublist
  exact (hsublist.eq_of_length (hperm.filter _).length_eq.symm).symm

theorem mem_iff_of_filter_span {xs ys : List FlatSymbol}
    (h : ∀ span, xs.filter (·.span = span) = ys.filter (·.span = span)) {a : FlatSymbol} :
    a ∈ xs ↔ a ∈ ys := by
  have hspan := congrArg (a ∈ ·) (h a.span)
  simpa [List.mem_filter] using hspan

/-- Lists in document order with the same symbols of each span are the same. -/
theorem eq_of_filter_span {xs ys : List FlatSymbol} (hxs : xs.Pairwise fun a b => a.le b)
    (hys : ys.Pairwise fun a b => a.le b)
    (h : ∀ span, xs.filter (·.span = span) = ys.filter (·.span = span)) : xs = ys := by
  induction xs generalizing ys with
  | nil =>
    cases ys with
    | nil => rfl
    | cons y ys => exact absurd ((mem_iff_of_filter_span h).mpr List.mem_cons_self) List.not_mem_nil
  | cons x xs ih =>
    cases ys with
    | nil => exact absurd ((mem_iff_of_filter_span h).mp List.mem_cons_self) List.not_mem_nil
    | cons y ys =>
      obtain ⟨hx, hxs'⟩ := List.pairwise_cons.mp hxs
      obtain ⟨hy, hys'⟩ := List.pairwise_cons.mp hys
      -- Each of the two comes first, so they have the same span.
      have hspan : x.span = y.span := by
        rcases List.mem_cons.mp ((mem_iff_of_filter_span h).mp List.mem_cons_self) with rfl | hxy
        · rfl
        rcases List.mem_cons.mp ((mem_iff_of_filter_span h).mpr List.mem_cons_self) with rfl | hyx
        · rfl
        exact FlatSymbol.span_eq_of_le (hx y hyx) (hy x hxy)
      have hfirst := h x.span
      rw [List.filter_cons_of_pos (by simp), List.filter_cons_of_pos (by simp [hspan]),
        List.cons.injEq] at hfirst
      obtain ⟨rfl, hfirst⟩ := hfirst
      refine congrArg (x :: ·) (ih hxs' hys' fun span => ?_)
      by_cases heq : x.span = span
      · rw [← heq]
        exact hfirst
      · simpa [heq] using h span

/-- **There is one way to put symbols in document order.** -/
theorem InDocumentOrder.unique {symbols xs ys : List FlatSymbol} (hxs : InDocumentOrder symbols xs)
    (hys : InDocumentOrder symbols ys) : xs = ys :=
  eq_of_filter_span hxs.sorted hys.sorted fun span => (hxs.stable span).trans (hys.stable span).symm

/-! ### The symbols that are open -/

/-- One more child adds its entries at the end. -/
theorem OpenSymbol.entries_close_cons (s : OpenSymbol) (child : Symbol) (parent : Option Nat)
    (base : Nat) :
    (OpenSymbol.mk s.symbol (child :: s.children)).close.entries parent base =
      s.close.entries parent base ++
        child.entries (some base) (base + (s.close.entries parent base).length) := by
  have hbase : ∀ n, base + 1 + n = base + (n + 1) := fun n => by omega
  simp only [OpenSymbol.close, List.reverse_cons, Symbol.entries, Symbol.entriesOfAll_concat,
    List.cons_append, List.length_cons, hbase]

section Open

variable {opened : List OpenSymbol} {roots : List Symbol} {span : Span}

/-- The outline of what there is if every open symbol is closed. -/
def outlined (opened : List OpenSymbol) (roots : List Symbol) : List OutlineEntry :=
  Symbol.entriesOfAll none 0 (closeAll opened roots).reverse

/-- The index of the innermost open symbol: the entries before its own are those of what there is
without it. -/
def innermost : List OpenSymbol → List Symbol → Option Nat
  | [], _ => none
  | _ :: outer, roots => some (outlined outer roots).length

/-- The index of the innermost open symbol that covers a span. -/
def innermostCovering (span : Span) : List OpenSymbol → List Symbol → Option Nat
  | [], _ => none
  | s :: outer, roots =>
    if s.symbol.span.covers span then some (outlined outer roots).length
    else innermostCovering span outer roots

theorem outlined_nil (roots : List Symbol) :
    outlined [] roots = Symbol.entriesOfAll none 0 roots.reverse := by
  rw [outlined, closeAll]

/-- Closing an open symbol adds its entries at the end. -/
theorem outlined_cons (s : OpenSymbol) (outer : List OpenSymbol) (roots : List Symbol) :
    outlined (s :: outer) roots =
      outlined outer roots ++
        s.close.entries (innermost outer roots) (outlined outer roots).length := by
  induction outer generalizing s with
  | nil =>
    rw [outlined_nil, outlined, closeAll, List.reverse_cons, Symbol.entriesOfAll_concat, Nat.zero_add]
    rfl
  | cons parent outer ih =>
    rw [outlined, closeAll, ← outlined, ih, OpenSymbol.entries_close_cons, ih, List.append_assoc,
      List.length_append]
    rfl

/-- Closing symbols early does not change what there is in the end. -/
theorem outlined_closeUntil (span : Span) (opened : List OpenSymbol) (roots : List Symbol) :
    outlined (closeUntil span opened roots).1 (closeUntil span opened roots).2 =
      outlined opened roots := by
  fun_induction closeUntil span opened roots with
  | case1 | case2 | case4 => rfl
  | case3 => simp only [outlined, closeAll]
  | case5 s roots parent outer h ih =>
    rw [ih]
    simp only [outlined, closeAll]

/-- The innermost symbol that is left open is the innermost one that covers the span. -/
theorem innermost_closeUntil (span : Span) (opened : List OpenSymbol) (roots : List Symbol) :
    innermost (closeUntil span opened roots).1 (closeUntil span opened roots).2 =
      innermostCovering span opened roots := by
  fun_induction closeUntil span opened roots with
  | case1 => rfl
  | case2 s roots h | case3 s roots h | case4 s roots parent outer h =>
    simp [innermost, innermostCovering, h]
  | case5 s roots parent outer h ih =>
    rw [ih]
    simp [innermostCovering, h]

/-- What is closed is not missed by a span that none of it covers. -/
theorem innermostCovering_closeUntil {other : Span}
    (h : ∀ s ∈ opened.map (·.symbol), s.span.covers other → s.span.covers span) :
    innermostCovering other (closeUntil span opened roots).1 (closeUntil span opened roots).2 =
      innermostCovering other opened roots := by
  fun_induction closeUntil span opened roots with
  | case1 | case2 | case4 => rfl
  | case3 s roots hs =>
    have hother := mt (h s.symbol List.mem_cons_self) hs
    simp [innermostCovering, hother]
  | case5 s roots parent outer hs ih =>
    have hother := mt (h s.symbol List.mem_cons_self) hs
    rw [ih fun t ht => h t (List.mem_cons_of_mem _ ht)]
    simp [innermostCovering, hother]

theorem symbols_closeUntil (span : Span) (opened : List OpenSymbol) (roots : List Symbol) :
    (closeUntil span opened roots).1.map (·.symbol) <:+ opened.map (·.symbol) := by
  fun_induction closeUntil span opened roots with
  | case1 | case2 | case4 => exact List.suffix_rfl
  | case3 => exact List.nil_suffix
  | case5 s roots parent outer h ih => exact ih.trans (List.suffix_cons _ _)

end Open

/-! ### Searching for parents -/

/-- The index of the last of the symbols that covers a span. -/
def lastCovering (symbols : List FlatSymbol) (span : Span) : Option Nat :=
  (symbols.zipIdx.reverse.find? (·.1.span.covers span)).map (·.2)

theorem lastCovering_concat (symbols : List FlatSymbol) (s : FlatSymbol) (span : Span) :
    lastCovering (symbols ++ [s]) span =
      if s.span.covers span then some symbols.length else lastCovering symbols span := by
  unfold lastCovering
  rw [List.zipIdx_append, List.reverse_append]
  simp only [List.zipIdx_cons, List.zipIdx_nil, List.reverse_singleton, List.singleton_append,
    List.find?_cons, Nat.zero_add]
  cases s.span.covers span <;> simp

/-- The outline in which the parent of each symbol is the last one before it that covers it. -/
def searchedOutline (symbols : List FlatSymbol) : List OutlineEntry :=
  symbols.mapIdx fun i s => s.entry (lastCovering (symbols.take i) s.span)

theorem searchedOutline_concat (symbols : List FlatSymbol) (s : FlatSymbol) :
    searchedOutline (symbols ++ [s]) =
      searchedOutline symbols ++ [s.entry (lastCovering symbols s.span)] := by
  unfold searchedOutline
  rw [List.mapIdx_concat, List.take_left]
  refine congrArg (· ++ _) (List.mapIdx_eq_mapIdx_iff.mpr fun i hi => ?_)
  rw [List.take_append_of_le_length (Nat.le_of_lt hi)]

theorem map_flat_searchedOutline (symbols : List FlatSymbol) :
    (searchedOutline symbols).map (·.flat) = symbols := by
  rw [searchedOutline, List.mapIdx_eq_zipIdx_map, List.map_map]
  exact List.zipIdx_map_fst 0 symbols

theorem length_searchedOutline (symbols : List FlatSymbol) :
    (searchedOutline symbols).length = symbols.length := List.length_mapIdx

/-! ### One symbol after another -/

/-- What nesting has made of the symbols so far: their outline is that of the search, and of the symbols
to come each finds the same parent among the open ones as the search finds among all. -/
structure Nesting (done : List FlatSymbol) (opened : List OpenSymbol) (roots : List Symbol) : Prop where
  outlined_eq : outlined opened roots = searchedOutline done
  opened_subset : opened.map (·.symbol) ⊆ done
  covering_eq : ∀ span : Span, span.start.le span.stop → (∀ s ∈ done, s.span.start.le span.start) →
    innermostCovering span opened roots = lastCovering done span

theorem nesting_nil : Nesting [] [] [] := ⟨by rw [outlined_nil]; rfl, by simp, fun _ _ _ => rfl⟩

/-- A symbol that covers a later one covers all those between them that do not cover it. -/
theorem Span.covers_of_covers {s t u : Span} (hst : s.start.le t.start) (htu : t.start.le u.start)
    (ht : t.start.le t.stop) (hu : u.start.le u.stop) (hs : s.covers u) (hnot : ¬t.covers u) :
    s.covers t := by
  simp only [covers_iff, contains_iff] at hs hnot ⊢
  obtain ⟨⟨hstart, hwithin⟩, -, hstop⟩ := hs
  have hreach : t.stop.le s.stop := by
    rcases Bool.or_eq_true_iff.mp (Position.le_total t.stop s.stop) with hle | hge
    · exact hle
    · exact absurd ⟨⟨htu, Position.le_trans hwithin hge⟩, Position.le_trans htu hu,
        Position.le_trans hstop hge⟩ hnot
  exact ⟨⟨hst, Position.le_trans htu hwithin⟩, Position.le_trans hst ht, hreach⟩

section Steps

variable {done more : List FlatSymbol} {opened : List OpenSymbol} {roots : List Symbol}

/-- **One more symbol** finds its parent, and leaves open all that the symbols to come may need. -/
theorem Nesting.step (h : Nesting done opened roots) {s : FlatSymbol}
    (hspan : s.span.start.le s.span.stop) (hstart : ∀ t ∈ done, t.span.start.le s.span.start) :
    Nesting (done ++ [s]) (⟨s, []⟩ :: (closeUntil s.span opened roots).1)
      (closeUntil s.span opened roots).2 := by
  refine ⟨?_, ?_, fun other hother hlater => ?_⟩
  · rw [outlined_cons, outlined_closeUntil, innermost_closeUntil, h.covering_eq s.span hspan hstart,
      h.outlined_eq, searchedOutline_concat]
    simp [OpenSymbol.close, Symbol.entries, Symbol.entriesOfAll, FlatSymbol.entry]
  · rw [List.map_cons, List.cons_subset]
    refine ⟨by simp, fun t ht => List.mem_append_left _ (h.opened_subset ?_)⟩
    exact (symbols_closeUntil s.span opened roots).subset ht
  · obtain ⟨hdone, hself⟩ := List.forall_mem_append.mp hlater
    rw [lastCovering_concat, innermostCovering, outlined_closeUntil, h.outlined_eq,
      length_searchedOutline]
    by_cases hcovers : s.span.covers other
    · rw [if_pos hcovers, if_pos hcovers]
    · rw [if_neg hcovers, if_neg hcovers, innermostCovering_closeUntil, h.covering_eq other hother hdone]
      intro t ht hcoversOther
      exact Span.covers_of_covers (hstart t (h.opened_subset ht)) (hself s List.mem_cons_self) hspan
        hother hcoversOther hcovers

/-- All symbols after some that have been nested. -/
theorem Nesting.run (h : Nesting done opened roots)
    (hsorted : (done ++ more).Pairwise fun a b => a.span.start.le b.span.start)
    (hspan : ∀ s ∈ more, s.span.start.le s.span.stop) :
    Symbol.entriesOfAll none 0 (nestOrdered more opened roots) = searchedOutline (done ++ more) := by
  induction more generalizing done opened roots with
  | nil => rw [nestOrdered, List.append_nil, ← outlined, h.outlined_eq]
  | cons s more ih =>
    obtain ⟨hs, hmore⟩ := List.forall_mem_cons.mp hspan
    have hstart : ∀ t ∈ done, t.span.start.le s.span.start := fun t ht =>
      (List.pairwise_append.mp hsorted).2.2 t ht s List.mem_cons_self
    rw [List.append_cons] at hsorted ⊢
    rw [nestOrdered]
    exact ih (h.step hs hstart) hsorted hmore

end Steps

/-- **Nesting is a search for parents**: the preorder of the forest is the document order of the symbols,
and the parent of each is the last one before it that covers it, if there is one. -/
theorem nest_parents {symbols : List FlatSymbol}
    (hspan : ∀ s ∈ symbols, s.span.start.le s.span.stop) :
    ∃ ordered, (∀ l, InDocumentOrder symbols l ↔ l = ordered) ∧
      (Symbol.preorder (nest symbols)).map Symbol.flat = ordered ∧
      (Outline.ofSymbols (nest symbols)).entries.map (·.parent) =
        ordered.mapIdx fun i s => lastCovering (ordered.take i) s.span := by
  have hordered := inDocumentOrder_mergeSort symbols
  have hentries : Symbol.entriesOfAll none 0 (nest symbols) =
      searchedOutline (symbols.mergeSort FlatSymbol.le) :=
    nesting_nil.run (hordered.sorted.imp FlatSymbol.start_le_of_le) fun s hs =>
      hspan s (hordered.perm.subset hs)
  refine ⟨_, fun l => ⟨fun hl => hl.unique hordered, fun hl => hl ▸ hordered⟩, ?_, ?_⟩
  · rw [← Symbol.map_flat_entriesOfAll none 0, hentries, map_flat_searchedOutline]
  · rw [Outline.ofSymbols, hentries, searchedOutline, List.mapIdx_eq_zipIdx_map, List.mapIdx_eq_zipIdx_map,
      List.map_map]
    rfl

/-- Symbols that overlap in part, touch, or have the same span. -/
def overlapping : List FlatSymbol :=
  [⟨"inner", .method, .of 2 0 3 0⟩, ⟨"first", .class, .of 0 0 3 0⟩, ⟨"second", .class, .of 1 0 5 0⟩,
    ⟨"touching", .method, .of 3 0 4 0⟩, ⟨"twin", .class, .of 1 0 5 0⟩]

/-- The parent of `inner` is the last of the three symbols that cover it. -/
theorem nest_parents_overlapping :
    (∀ s ∈ overlapping, s.span.start.le s.span.stop) ∧
      (Symbol.preorder (nest overlapping)).map (·.name) =
        ["first", "second", "twin", "inner", "touching"] ∧
      (Outline.ofSymbols (nest overlapping)).entries.map (·.parent) =
        [none, none, some 1, some 2, some 2] := by
  have hspan : ∀ s ∈ overlapping, s.span.start.le s.span.stop := by decide
  have hsort : InDocumentOrder overlapping
      [⟨"first", .class, .of 0 0 3 0⟩, ⟨"second", .class, .of 1 0 5 0⟩, ⟨"twin", .class, .of 1 0 5 0⟩,
        ⟨"inner", .method, .of 2 0 3 0⟩, ⟨"touching", .method, .of 3 0 4 0⟩] :=
    .of_occurring (by decide) (by decide) (by decide)
  obtain ⟨ordered, hordered, hpreorder, hparents⟩ := nest_parents hspan
  obtain rfl := (hordered _).mp hsort
  refine ⟨hspan, ?_, ?_⟩
  · have hnames := congrArg (List.map FlatSymbol.name) hpreorder
    rw [List.map_map] at hnames
    exact hnames
  · rw [hparents]
    decide

end Vicinity
