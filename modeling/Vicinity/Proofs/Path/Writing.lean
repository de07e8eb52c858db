import Vicinity.Path

/-!
# Writing paths

A path is written with its slashes and with one slash between each two of its names. What is written
in this way is read as the same path, if the names are such as reading gives: not empty, without slashes,
and no single dots.

## What is proved

* `read_parse`: the names that reading gives are such.
* `segmentsOf_of_toList`, `slashesOf_of_toList`: reading a text that is made of slashes and names.
* `parse_render`: writing a path and reading it gives the path back.
-/

namespace Vicinity

/-- The names in a path are not empty, hold no slash, and are not single dots. -/
theorem Path.mem_segmentsOf {text name : String} (h : name ∈ Path.segmentsOf text) :
    name ≠ "" ∧ '/' ∉ name.toList ∧ name ≠ "." := by
  obtain ⟨part, hpart, rfl⟩ := List.mem_map.mp h
  obtain ⟨hsplit, hkeep⟩ := List.mem_filter.mp hpart
  rw [Bool.and_eq_true, bne_iff_ne, bne_iff_ne] at hkeep
  refine ⟨fun heq => hkeep.1 ?_, ?_, fun heq => hkeep.2 ?_⟩
  · simpa using congrArg String.toList heq
  · rw [String.toList_ofList]
    exact Text.not_mem_of_mem_splitOn hsplit
  · simpa using congrArg String.toList heq

/-- A path as reading one gives it. -/
structure Path.Read (p : Path) : Prop where
  slashes_le : p.slashes ≤ 2
  segments : ∀ name ∈ p.segments, name ≠ "" ∧ '/' ∉ name.toList ∧ name ≠ "."

theorem Path.read_parse (text : String) : (Path.parse text).Read where
  slashes_le := by
    show Path.slashesOf text ≤ 2
    unfold Path.slashesOf
    split <;> omega
  segments _ h := Path.mem_segmentsOf h

theorem Text.splitOn_replicate_append (sep : Char) (n : Nat) (s : List Char) :
    Text.splitOn sep (List.replicate n sep ++ s) = List.replicate n [] ++ Text.splitOn sep s := by
  induction n with
  | zero => rfl
  | succ n ih =>
    rw [List.replicate_succ, List.cons_append, Text.splitOn_cons_sep, ih]
    rfl

/-- The characters of a written path: its slashes, and its names with a slash between each two. -/
theorem Path.toList_render {p : Path} (h : ¬(p.slashes = 0 ∧ p.segments = [])) :
    p.render.toList = List.replicate p.slashes '/' ++
      Text.joinWith ['/'] (p.segments.map String.toList) := by
  have hif : ¬(p.slashes = 0 && p.segments.isEmpty) = true := by simpa using h
  rw [Path.render, if_neg hif, String.toList_append, String.toList_ofList, String.toList_intercalate]
  rfl

/-- Reading the names of a text that is made of names and slashes. -/
theorem Path.segmentsOf_of_toList {text : String} {n : Nat} {names : List String}
    (hnames : ∀ name ∈ names, name ≠ "" ∧ '/' ∉ name.toList ∧ name ≠ ".")
    (h : text.toList = List.replicate n '/' ++ Text.joinWith ['/'] (names.map String.toList)) :
    Path.segmentsOf text = names := by
  have hkeep : ∀ part ∈ names.map String.toList, (part != [] && part != ['.']) = true := by
    intro part hpart
    obtain ⟨name, hname, rfl⟩ := List.mem_map.mp hpart
    obtain ⟨hempty, -, hdot⟩ := hnames name hname
    rw [Bool.and_eq_true, bne_iff_ne, bne_iff_ne]
    exact ⟨fun heq => hempty (String.toList_inj.mp heq), fun heq => hdot (String.toList_inj.mp heq)⟩
  have hsplit : (Text.splitOn '/' (Text.joinWith ['/'] (names.map String.toList))).filter
      (fun part => part != [] && part != ['.']) = names.map String.toList := by
    cases names with
    | nil => rfl
    | cons name more =>
      rw [Text.splitOn_joinWith (by simp) fun part hpart => ?_, List.filter_eq_self.mpr hkeep]
      obtain ⟨name, hname, rfl⟩ := List.mem_map.mp hpart
      exact (hnames name hname).2.1
  rw [Path.segmentsOf, h, Text.splitOn_replicate_append, List.filter_append, hsplit,
    List.filter_eq_nil_iff.mpr fun part hpart => by simp [List.eq_of_mem_replicate hpart],
    List.nil_append, List.map_map]
  exact List.map_id'' (fun name => String.ofList_toList) names

theorem Path.slashesOf_of_toList {text : String} {n : Nat} (hn : n ≤ 2) {s : List Char}
    (hs : s.head? ≠ some '/') (h : text.toList = List.replicate n '/' ++ s) :
    Path.slashesOf text = n := by
  have hlead : s.takeWhile (· == '/') = [] := by
    cases s with
    | nil => rfl
    | cons c s => exact List.takeWhile_cons_of_neg (by simpa using hs)
  have hlength : (text.toList.takeWhile (· == '/')).length = n := by
    rw [h, List.takeWhile_append_of_pos fun c hc => by simp [List.eq_of_mem_replicate hc], hlead]
    simp
  rw [Path.slashesOf, hlength]
  match n, hn with
  | 0, _ => rfl
  | 1, _ => rfl
  | 2, _ => rfl

/-- Writing a path and reading it gives the path back. -/
theorem Path.parse_render {p : Path} (h : p.Read) : Path.parse p.render = p := by
  by_cases hempty : p.slashes = 0 ∧ p.segments = []
  · obtain ⟨slashes, segments⟩ := p
    obtain ⟨rfl, rfl⟩ := hempty
    decide +kernel
  · have hchars := Path.toList_render hempty
    have hhead : (Text.joinWith ['/'] (p.segments.map String.toList)).head? ≠ some '/' := by
      cases hsegments : p.segments with
      | nil => simp [Text.joinWith]
      | cons name more =>
        obtain ⟨hne, hslash, -⟩ := h.segments name (hsegments ▸ List.mem_cons_self)
        obtain ⟨c, rest, hcons⟩ := List.exists_cons_of_ne_nil
          fun heq => hne (String.toList_inj.mp heq)
        rw [hcons] at hslash
        have hc : c ≠ '/' := fun heq => hslash (heq ▸ List.mem_cons_self)
        cases more <;> simpa [Text.joinWith, List.intercalate_cons_cons, hcons] using hc
    rw [Path.parse, Path.slashesOf_of_toList h.slashes_le hhead hchars,
      Path.segmentsOf_of_toList h.segments hchars]

end Vicinity
