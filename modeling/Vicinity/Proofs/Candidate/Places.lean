import Vicinity.Proofs.Candidate.Words
import Vicinity.Proofs.Declaration.Bounds
import Vicinity.Proofs.Text.Offsets

/-!
# Where candidates stand

The places at which a word stands as a whole in a unit of code are looked for line by line. The unit
begins at some column of a line of its document, so that the columns on its first line are shifted, and
those on the others are not.

## What is proved

* `CodeUnit.mem_positionsOf`, `CodeUnit.pairwise_positionsOf`: the positions of a word are those of all
  places at which it stands as a whole in the text, in order.
* `exists_line_of_sliceLines`: each line of what a span covers is a part of a line of the document.
* `Document.slice_of_positionsOf`: the word stands in the document at each of its positions.
* `candidates_exact`: which candidates a unit of code has, in which order, and where they stand.
-/

namespace Vicinity

open Text

/-! ### Lines and ends -/

theorem before_free_iff {s last : List Char} {prior : List (List Char)} (h : lines s = prior ++ [last]) :
    (∀ c ∈ s.getLast?, isIdentifierChar c = false) ↔ ∀ c ∈ last.getLast?, isIdentifierChar c = false := by
  rcases ends_with_last h with rfl | ⟨front, rfl⟩
  · exact Iff.rfl
  · cases last with
    | nil =>
      have hnewline : isIdentifierChar '\n' = false := by decide
      simp [hnewline]
    | cons c last => rw [List.getLast?_append_cons, List.getLast?_cons_cons]

theorem after_free_iff {s first : List Char} {more : List (List Char)} (h : lines s = first :: more) :
    (∀ c ∈ s.head?, isIdentifierChar c = false) ↔ ∀ c ∈ first.head?, isIdentifierChar c = false := by
  obtain ⟨tail, rfl, htail⟩ := begins_with_first h
  cases first with
  | nil =>
    refine iff_of_true (fun c hc => ?_) (by simp)
    rw [htail c hc]
    decide
  | cons c first => exact Iff.rfl

/-- A word stands as a whole in a text where it does in one of its lines. -/
theorem wholeAt_iff {text word : List Char} (hword : '\n' ∉ word) {p : Position} :
    (∃ before after, WholeAt text before word after ∧ p = positionOfOffset text before.length) ↔
      ∃ prior line more before after, lines text = prior ++ line :: more ∧
        WholeAt line before word after ∧ p = ⟨prior.length, before.length⟩ := by
  constructor
  · rintro ⟨before, after, ⟨rfl, hbefore, hafter⟩, rfl⟩
    obtain ⟨prior, last, hprior⟩ := exists_lines_eq_concat before
    obtain ⟨first, more, hmore⟩ := exists_lines_eq_cons after
    have hfront : lines (before ++ word) = prior ++ [last ++ word] :=
      lines_append hprior (lines_of_not_mem hword)
    refine ⟨prior, last ++ word ++ first, more, last, first, lines_append hfront hmore,
      ⟨rfl, (before_free_iff hprior).mp hbefore, (after_free_iff hmore).mp hafter⟩, ?_⟩
    rw [List.append_assoc]
    exact positionOfOffset_append hprior _
  · rintro ⟨prior, line, more, before, after, hlines, ⟨rfl, hbefore, hafter⟩, rfl⟩
    -- what is before the word in the text are the earlier lines and the beginning of this one
    have hclean : ∀ line ∈ lines text, '\n' ∉ line := fun line => not_mem_of_mem_splitOn
    rw [hlines] at hclean
    obtain ⟨hclean_prior, hclean_rest⟩ := List.forall_mem_append.mp hclean
    obtain ⟨hclean_line, hclean_more⟩ := List.forall_mem_cons.mp hclean_rest
    have hclean_before : '\n' ∉ before := fun h => hclean_line (by simp [h])
    have hclean_after : '\n' ∉ after := fun h => hclean_line (by simp [h])
    have hprior : lines (unlines (prior ++ [before])) = prior ++ [before] :=
      lines_unlines (by simp)
        (List.forall_mem_append.mpr ⟨hclean_prior, List.forall_mem_singleton.mpr hclean_before⟩)
    have hmore : lines (unlines (after :: more)) = after :: more :=
      lines_unlines (by simp) (List.forall_mem_cons.mpr ⟨hclean_after, hclean_more⟩)
    have hfront : lines (unlines (prior ++ [before]) ++ word) = prior ++ [before ++ word] :=
      lines_append hprior (lines_of_not_mem hword)
    have htext : text = unlines (prior ++ [before]) ++ word ++ unlines (after :: more) := by
      rw [← unlines_lines text, hlines, ← lines_append hfront hmore, unlines_lines]
    refine ⟨unlines (prior ++ [before]), unlines (after :: more),
      ⟨htext, (before_free_iff hprior).mpr hbefore, (after_free_iff hmore).mpr hafter⟩, ?_⟩
    rw [htext, List.append_assoc, positionOfOffset_append hprior]

/-! ### The positions of a word -/

/-- The position in a document of a position in a text that begins in it at `start`. -/
def Position.within (start p : Position) : Position :=
  ⟨start.line + p.line, if p.line = 0 then start.column + p.column else p.column⟩

/-- The position in its document of what comes after the beginning of a unit of code. -/
def CodeUnit.positionAfter (unit : CodeUnit) (before : List Char) : Position :=
  unit.span.start.within (positionOfOffset unit.text.toList before.length)

theorem IsIdentifier.newline_not_mem {word : List Char} (h : IsIdentifier word) : '\n' ∉ word := by
  intro hmem
  have hnewline : isIdentifierChar '\n' = false := by decide
  rw [h.chars _ hmem] at hnewline
  cases hnewline

theorem mem_zipIdx_iff {α : Type} {xs : List α} {x : α} {i : Nat} :
    (x, i) ∈ xs.zipIdx ↔ ∃ prior more, xs = prior ++ x :: more ∧ i = prior.length := by
  rw [List.mk_mem_zipIdx_iff_getElem?]
  constructor
  · intro h
    obtain ⟨hi, rfl⟩ := List.getElem?_eq_some_iff.mp h
    refine ⟨xs.take i, xs.drop (i + 1), ?_, (List.length_take_of_le (Nat.le_of_lt hi)).symm⟩
    rw [← List.drop_eq_getElem_cons hi, List.take_append_drop]
  · rintro ⟨prior, more, rfl, rfl⟩
    simp

namespace CodeUnit

variable {unit : CodeUnit} {word : List Char}

/-- **The positions of a word are those of all places at which it stands as a whole.** -/
theorem mem_positionsOf (hword : IsIdentifier word) {p : Position} :
    p ∈ unit.positionsOf word ↔
      ∃ before after, WholeAt unit.text.toList before word after ∧ p = unit.positionAfter before := by
  have hplaces : (∃ before after, WholeAt unit.text.toList before word after ∧
      p = unit.positionAfter before) ↔ ∃ q, (∃ before after, WholeAt unit.text.toList before word after ∧
        q = positionOfOffset unit.text.toList before.length) ∧ p = unit.span.start.within q := by
    constructor
    · rintro ⟨before, after, hwhole, rfl⟩
      exact ⟨_, ⟨before, after, hwhole, rfl⟩, rfl⟩
    · rintro ⟨q, ⟨before, after, hwhole, rfl⟩, rfl⟩
      exact ⟨before, after, hwhole, rfl⟩
  rw [hplaces]
  simp only [wholeAt_iff hword.newline_not_mem, positionsOf, List.mem_flatMap, List.mem_map, Prod.exists,
    mem_zipIdx_iff, mem_wholeWordColumns hword.chars hword.ne_nil]
  constructor
  · rintro ⟨line, i, ⟨prior, more, hlines, rfl⟩, column, ⟨before, after, hwhole, rfl⟩, rfl⟩
    refine ⟨⟨prior.length, before.length⟩, ⟨prior, line, more, before, after, hlines, hwhole, rfl⟩, ?_⟩
    simp [Position.within]
  · rintro ⟨q, ⟨prior, line, more, before, after, hlines, hwhole, rfl⟩, rfl⟩
    refine ⟨line, prior.length, ⟨prior, more, hlines, rfl⟩, before.length,
      ⟨before, after, hwhole, rfl⟩, ?_⟩
    simp [Position.within]

/-- **They are in order.** -/
theorem pairwise_positionsOf (unit : CodeUnit) (word : List Char) :
    (unit.positionsOf word).Pairwise fun p q => p.lt q := by
  rw [positionsOf, List.pairwise_flatMap]
  constructor
  · rintro ⟨line, i⟩ -
    refine List.pairwise_map.mpr ((pairwise_wholeWordColumns word line).imp fun {a b} hab => ?_)
    rw [Position.lt_iff]
    dsimp only
    split <;> omega
  · have hindexes : ((lines unit.text.toList).zipIdx.map Prod.snd).Pairwise (· < ·) := by
      rw [List.zipIdx_map_snd]
      exact List.pairwise_lt_range' ..
    refine (List.pairwise_map.mp hindexes).imp fun {a b} hab p hp q hq => ?_
    obtain ⟨column, -, rfl⟩ := List.mem_map.mp hp
    obtain ⟨column', -, rfl⟩ := List.mem_map.mp hq
    rw [Position.lt_iff]
    dsimp only
    omega

end CodeUnit

/-! ### In the document -/

/-- The column of a line at which what a span covers begins on it, counting the lines of the span. -/
def Span.columnOn (s : Span) (i : Nat) : Nat := if i = 0 then s.start.column.toNat else 0

section Slices

variable {ls : List (List Char)} {s : Span}

theorem sliceFrom_ofNat {α : Type} (xs : List α) {start : Int} (h : 0 ≤ start) :
    sliceFrom xs start = xs.drop start.toNat := by
  have hclamp : clampIndex xs.length start = min start.toNat xs.length := if_neg (by omega)
  rw [sliceFrom, hclamp]
  rcases Nat.le_total start.toNat xs.length with hle | hle
  · rw [Nat.min_eq_left hle]
  · rw [Nat.min_eq_right hle, List.drop_length, List.drop_eq_nil_of_le hle]

/-- A slice is a part of what begins at its start. -/
theorem slice_prefix {α : Type} (xs : List α) {start : Int} (stop : Int) (h : 0 ≤ start) :
    slice xs start stop <+: xs.drop start.toNat := by
  rw [← sliceFrom_ofNat xs h, slice, List.drop_take, sliceFrom]
  exact List.take_prefix _ _

theorem getElem?_of_drop_take {α : Type} {xs : List α} {a b i : Nat} {x : α}
    (h : ((xs.take b).drop a)[i]? = some x) : xs[a + i]? = some x := by
  rw [List.getElem?_drop, List.getElem?_take] at h
  split at h
  · exact h
  · cases h

/-- Of several lines the first loses characters before a column and the last loses some at its end. -/
theorem exists_line_of_cut {first first' last last' : List Char} {between : List (List Char)}
    (hfirst : first' <+: first.drop (s.columnOn 0)) (hlast : last' <+: last) {i : Nat} {piece : List Char}
    (h : (first' :: (between ++ [last']))[i]? = some piece) :
    ∃ line, (first :: (between ++ [last]))[i]? = some line ∧ piece <+: line.drop (s.columnOn i) := by
  cases i with
  | zero =>
    obtain rfl := Option.some.inj h
    exact ⟨first, rfl, hfirst⟩
  | succ j =>
    rw [List.getElem?_cons_succ] at h ⊢
    have hcolumn : s.columnOn (j + 1) = 0 := if_neg (Nat.succ_ne_zero j)
    simp only [hcolumn, List.drop_zero]
    by_cases hj : j < between.length
    · rw [List.getElem?_append_left hj] at h ⊢
      exact ⟨piece, h, List.prefix_rfl⟩
    · rw [List.getElem?_append_right (Nat.le_of_not_lt hj)] at h ⊢
      rw [List.getElem?_singleton] at h ⊢
      split at h
      · rename_i hzero
        obtain rfl := Option.some.inj h
        exact ⟨last, if_pos hzero, hlast⟩
      · cases h

/-- What a span covers is nothing, or it is put together from parts of the lines of the document, one for
each line. -/
theorem exists_pieces_of_sliceLines (ls : List (List Char)) (hline : 0 ≤ s.start.line)
    (hcolumn : 0 ≤ s.start.column) :
    sliceLines ls s = [] ∨ ∃ pieces, pieces ≠ [] ∧ sliceLines ls s = unlines pieces ∧
      ∀ i piece, pieces[i]? = some piece →
        ∃ line, ls[s.start.line.toNat + i]? = some line ∧ piece <+: line.drop (s.columnOn i) := by
  unfold sliceLines
  split
  · exact .inl rfl
  rename_i hinside
  dsimp only
  split
  · exact .inl rfl
  rename_i horder
  right
  rw [Bool.or_eq_true, not_or, decide_eq_true_eq, List.isEmpty_iff] at hinside
  rw [Int.max_eq_left hline] at horder ⊢
  obtain ⟨b, hb⟩ : ∃ b : Nat, min s.stop.line (ls.length - 1 : Int) = b :=
    ⟨(min s.stop.line (ls.length - 1 : Int)).toNat, by omega⟩
  rw [hb, Int.toNat_natCast]
  generalize (if (b : Int) = s.stop.line then s.stop.column else (ls.getD b []).length) = stopColumn
  -- the stop column cuts the last line at its end, wherever it lies
  have hlength : b < ls.length := by omega
  have hget : ∀ n : Nat, n < ls.length → ls[n]? = some (ls.getD n []) := fun n hn => by
    rw [List.getD_eq_getElem?_getD, List.getElem?_eq_getElem hn, Option.getD_some]
  split
  · rename_i hone
    refine ⟨[_], List.cons_ne_nil _ _, (unlines_singleton _).symm, fun i piece h => ?_⟩
    rw [List.getElem?_singleton] at h
    split at h
    · rename_i hzero
      obtain rfl := Option.some.inj h
      refine ⟨ls.getD b [], ?_, ?_⟩
      · rw [hone, hzero, Nat.add_zero, hget b hlength]
      · rw [Span.columnOn, if_pos hzero]
        exact slice_prefix _ _ hcolumn
    · cases h
  · rename_i hmore
    refine ⟨_, List.cons_ne_nil _ _, rfl, fun i piece h => ?_⟩
    have hfirst : sliceFrom (ls.getD s.start.line.toNat []) s.start.column <+:
        (ls.getD s.start.line.toNat []).drop (s.columnOn 0) := by
      rw [sliceFrom_ofNat _ hcolumn]
      exact List.prefix_rfl
    obtain ⟨line, hcut, hpiece⟩ := exists_line_of_cut hfirst (List.take_prefix _ _) h
    rw [← drop_take_succ (by omega) hlength] at hcut
    exact ⟨line, getElem?_of_drop_take hcut, hpiece⟩

/-- The lines of what a span covers are parts of the lines of the document. -/
theorem exists_line_of_sliceLines (hline : 0 ≤ s.start.line) (hcolumn : 0 ≤ s.start.column)
    (hclean : ∀ line ∈ ls, '\n' ∉ line) {prior more : List (List Char)} {part : List Char}
    (hne : part ≠ []) (h : lines (sliceLines ls s) = prior ++ part :: more) :
    ∃ line, ls[s.start.line.toNat + prior.length]? = some line ∧
      part <+: line.drop (s.columnOn prior.length) := by
  rcases exists_pieces_of_sliceLines ls hline hcolumn with hnone | ⟨pieces, hpieces, htext, hparts⟩
  · have hempty : [[]] = prior ++ part :: more := by rw [← h, hnone]; rfl
    have hpart : part ∈ [[]] := hempty ▸ List.mem_append_right prior List.mem_cons_self
    exact absurd (List.mem_singleton.mp hpart) hne
  · have hclean_pieces : ∀ piece ∈ pieces, '\n' ∉ piece := by
      intro piece hpiece hnewline
      obtain ⟨i, hi⟩ := List.getElem?_of_mem hpiece
      obtain ⟨line, hget, hbegins⟩ := hparts i piece hi
      exact hclean line (List.mem_of_getElem? hget) (List.mem_of_mem_drop (hbegins.subset hnewline))
    rw [htext, lines_unlines hpieces hclean_pieces] at h
    exact hparts prior.length part (by simp [h])

/-- What stands on a line behind some of its characters is cut out by its columns. -/
theorem slice_of_drop {line x word y : List Char} {k : Nat} (hne : word ≠ [])
    (h : line.drop k = x ++ word ++ y) :
    slice line ((k + x.length : Nat) : Int) ((k + x.length : Nat) + word.length : Int) = word := by
  have hlength := congrArg List.length h
  have hpos := List.length_pos_of_ne_nil hne
  simp only [List.length_drop, List.length_append] at hlength
  have hstart : clampIndex line.length ((k + x.length : Nat) : Int) = k + x.length :=
    clampIndex_ofNat_of_le (by omega)
  have hstop : clampIndex line.length ((k + x.length : Nat) + word.length : Int) =
      k + x.length + word.length := by
    exact_mod_cast clampIndex_ofNat_of_le (by omega)
  rw [slice, hstart, hstop, List.drop_take, Nat.add_sub_cancel_left, ← List.drop_drop, h,
    List.append_assoc, List.drop_left, List.take_left]

end Slices

/-- **A word stands in the document at each of its positions in a unit that is cut out of it.** -/
theorem Document.slice_of_positionsOf (doc : Document) (name : String) {span : Span}
    (root : Option String) (hline : 0 ≤ span.start.line) (hcolumn : 0 ≤ span.start.column)
    {word : List Char} (hword : IsIdentifier word) {p : Position} (hp : p ∈ (doc.unitAt name span root).positionsOf word) :
    0 ≤ p.line ∧ 0 ≤ p.column ∧ ∃ line, doc.lines[p.line.toNat]? = some line ∧
      slice line p.column (p.column + word.length) = word := by
  obtain ⟨before, after, hwhole, rfl⟩ := (CodeUnit.mem_positionsOf hword).mp hp
  obtain ⟨prior, part, more, x, y, hlines, ⟨rfl, -, -⟩, hposition⟩ :=
    (wholeAt_iff hword.newline_not_mem).mp ⟨before, after, hwhole, rfl⟩
  have htext : (doc.unitAt name span root).text.toList = sliceLines doc.lines span := String.toList_ofList
  have hpart : x ++ word ++ y ≠ [] := by simp [hword.ne_nil]
  obtain ⟨line, hget, z, hdrop⟩ := exists_line_of_sliceLines hline hcolumn
    (fun line => not_mem_of_mem_splitOn) hpart (htext ▸ hlines)
  have hplace : (doc.unitAt name span root).positionAfter before =
      ⟨span.start.line + prior.length, (span.columnOn prior.length + x.length : Nat)⟩ := by
    rw [CodeUnit.positionAfter, hposition, Position.within, Span.columnOn]
    simp only [Document.unitAt, Int.natCast_eq_zero, Int.natCast_add, Position.mk.injEq, true_and]
    split <;> omega
  rw [hplace]
  refine ⟨by dsimp only; omega, by dsimp only; omega, line, ?_, ?_⟩
  · have hindex : (span.start.line + prior.length).toNat = span.start.line.toNat + prior.length := by
      omega
    dsimp only
    rw [hindex]
    exact hget
  · exact slice_of_drop (y := y ++ z) hword.ne_nil (by rw [← hdrop, List.append_assoc])

/-! ### Candidates -/

/-- A word is worth asking about in the text of a function: it is an identifier of the text, does not
structure a program, is not the function's own name, is called nowhere, and stands somewhere as a whole. -/
structure IsCandidate (text : List Char) (name : String) (word : List Char) : Prop where
  token : ∃ before after, TokenAt text before word after
  not_structural : String.ofList word ∉ structuralKeywords
  not_own : String.ofList word ≠ name
  not_called : ¬Called text word
  whole : ∃ before after, WholeAt text before word after

namespace CodeUnit

variable {unit : CodeUnit} {word : List Char}

theorem mem_candidates {positions : List Position} :
    (word, positions) ∈ unit.candidates ↔
      word ∈ candidateWords unit.text.toList unit.name.toList ∧ positions = unit.positionsOf word ∧
        positions ≠ [] := by
  simp only [candidates, List.mem_filter, List.mem_map, Prod.mk.injEq, Bool.not_eq_true',
    List.isEmpty_eq_false_iff]
  constructor
  · rintro ⟨⟨w, hw, rfl, rfl⟩, hne⟩
    exact ⟨hw, rfl, hne⟩
  · rintro ⟨hw, rfl, hne⟩
    exact ⟨⟨word, hw, rfl, rfl⟩, hne⟩

/-- The candidates are in the order of the words. -/
theorem candidates_sublist (unit : CodeUnit) :
    (unit.candidates.map Prod.fst).Sublist (candidateWords unit.text.toList unit.name.toList) := by
  have h := (List.filter_sublist (p := fun candidate : List Char × List Position => !candidate.2.isEmpty)
    (l := (candidateWords unit.text.toList unit.name.toList).map fun w => (w, unit.positionsOf w))).map
    Prod.fst
  rwa [List.map_map, show Prod.fst ∘ (fun w => (w, unit.positionsOf w)) = id from rfl, List.map_id] at h

theorem isIdentifier_of_mem (h : word ∈ candidateWords unit.text.toList unit.name.toList) :
    IsIdentifier word := by
  obtain ⟨⟨before, after, htoken⟩, -⟩ := mem_candidateWords.mp h
  exact htoken.isIdentifier

theorem mem_map_candidates :
    word ∈ unit.candidates.map Prod.fst ↔ IsCandidate unit.text.toList unit.name word := by
  have hname : word ≠ unit.name.toList ↔ String.ofList word ≠ unit.name := by
    rw [ne_eq, ne_eq, ← String.toList_inj, String.toList_ofList]
  constructor
  · intro h
    obtain ⟨⟨w, positions⟩, hmem, rfl⟩ := List.mem_map.mp h
    obtain ⟨hw, rfl, hne⟩ := mem_candidates.mp hmem
    obtain ⟨p, hp⟩ := List.exists_mem_of_ne_nil _ hne
    obtain ⟨before, after, hwhole, -⟩ := (mem_positionsOf (isIdentifier_of_mem hw)).mp hp
    obtain ⟨htoken, hstructural, hown, hcalled⟩ := mem_candidateWords.mp hw
    exact ⟨htoken, hstructural, hname.mp hown, hcalled, before, after, hwhole⟩
  · rintro ⟨htoken, hstructural, hown, hcalled, before, after, hwhole⟩
    have hw : word ∈ candidateWords unit.text.toList unit.name.toList :=
      mem_candidateWords.mpr ⟨htoken, hstructural, hname.mpr hown, hcalled⟩
    have hp : unit.positionAfter before ∈ unit.positionsOf word :=
      (mem_positionsOf (isIdentifier_of_mem hw)).mpr ⟨before, after, hwhole, rfl⟩
    exact List.mem_map.mpr ⟨_, mem_candidates.mpr ⟨hw, rfl, List.ne_nil_of_mem hp⟩, rfl⟩

end CodeUnit

/-- **The candidates of a unit that is cut out of a document**: exactly the words that are worth asking
about, each once and in the order in which they are first seen, with all places at which they stand as a
whole, in order; and the document has the word at each of these. -/
theorem candidates_exact (doc : Document) (name : String) (span : Span) (root : Option String)
    (hline : 0 ≤ span.start.line) (hcolumn : 0 ≤ span.start.column) :
    let unit := doc.unitAt name span root
    let text := unit.text.toList
    let words := unit.candidates.map Prod.fst
    words.Nodup ∧ words.Pairwise (SeenBefore text) ∧ (∀ word, word ∈ words ↔ IsCandidate text name word) ∧
      ∀ word positions, (word, positions) ∈ unit.candidates →
        (positions.Pairwise fun p q => p.lt q) ∧
        (∀ p, p ∈ positions ↔
          ∃ before after, WholeAt text before word after ∧ p = unit.positionAfter before) ∧
        ∀ p ∈ positions, 0 ≤ p.line ∧ 0 ≤ p.column ∧ ∃ line, doc.lines[p.line.toNat]? = some line ∧
          slice line p.column (p.column + word.length) = word := by
  intro unit text words
  have hsublist := unit.candidates_sublist
  refine ⟨(nodup_candidateWords _ _).sublist hsublist, (pairwise_candidateWords _ _).sublist hsublist,
    fun word => CodeUnit.mem_map_candidates, fun word positions h => ?_⟩
  obtain ⟨hw, rfl, -⟩ := CodeUnit.mem_candidates.mp h
  have hword := CodeUnit.isIdentifier_of_mem hw
  exact ⟨unit.pairwise_positionsOf word, fun p => CodeUnit.mem_positionsOf hword,
    fun p hp => doc.slice_of_positionsOf name root hline hcolumn hword hp⟩

/-- A function that begins behind other text on its line. -/
def shiftedFunction : Document := ⟨"/a.ts", "typescript", "x = (a: Foo) =>\n  g(a, 3Foo)\n"⟩

/-- The candidates of a function on two lines, of which the first is cut: `g` is called, and `Foo` stands
right after a digit once. -/
theorem candidates_exact_shifted :
    (shiftedFunction.unitAt "x" (.of 0 4 1 12) none).candidates =
      [("a".toList, [⟨0, 5⟩, ⟨1, 4⟩]), ("Foo".toList, [⟨0, 8⟩])] ∧
    0 ≤ (Span.of 0 4 1 12).start.line ∧ 0 ≤ (Span.of 0 4 1 12).start.column ∧
    ∀ p ∈ [(⟨0, 5⟩ : Position), ⟨1, 4⟩], 0 ≤ p.line ∧ 0 ≤ p.column ∧
      ∃ line, shiftedFunction.lines[p.line.toNat]? = some line ∧
        slice line p.column (p.column + ("a".toList.length : Int)) = "a".toList := by
  have hcandidates : (shiftedFunction.unitAt "x" (.of 0 4 1 12) none).candidates =
      [("a".toList, [⟨0, 5⟩, ⟨1, 4⟩]), ("Foo".toList, [⟨0, 8⟩])] := by decide +kernel
  have h := candidates_exact shiftedFunction "x" (.of 0 4 1 12) none (by decide) (by decide)
  exact ⟨hcandidates, by decide, by decide,
    (h.2.2.2 "a".toList _ (hcandidates ▸ List.mem_cons_self)).2.2⟩

end Vicinity
