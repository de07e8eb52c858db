/-!
# Lines

A text is cut at every line feed, and at nothing else, so that its lines put together again with
line feeds between them are the text (`unlines_lines`). A text has at least one line.
-/

namespace Vicinity.Text

/-- The pieces of a text between the occurrences of a separator. -/
def splitOn (sep : Char) (s : List Char) : List (List Char) :=
  s.foldr (fun c pieces =>
    if c = sep then [] :: pieces
    else match pieces with
      | piece :: more => (c :: piece) :: more
      | [] => [[c]]) [[]]

/-- The pieces with a separator between each two. -/
def joinWith (sep : List Char) (pieces : List (List Char)) : List Char :=
  sep.intercalate pieces

/-- The lines of a text. -/
def lines (s : List Char) : List (List Char) := splitOn '\n' s

/-- The text that has these lines. -/
def unlines (ls : List (List Char)) : List Char := joinWith ['\n'] ls

theorem splitOn_ne_nil (sep : Char) (s : List Char) : splitOn sep s ≠ [] := by
  cases s with
  | nil => simp [splitOn]
  | cons c s =>
    simp only [splitOn, List.foldr_cons]
    split
    · simp
    · split <;> simp

theorem splitOn_cons_sep (sep : Char) (s : List Char) :
    splitOn sep (sep :: s) = [] :: splitOn sep s := by
  simp [splitOn]

theorem splitOn_cons_of_ne {sep c : Char} (s : List Char) (h : c ≠ sep) :
    ∃ piece more, splitOn sep s = piece :: more ∧ splitOn sep (c :: s) = (c :: piece) :: more := by
  obtain ⟨piece, more, hs⟩ := List.exists_cons_of_ne_nil (splitOn_ne_nil sep s)
  refine ⟨piece, more, hs, ?_⟩
  have hs' := hs
  simp only [splitOn] at hs' ⊢
  simp [h, hs']

/-- Cutting a text at a separator and joining the pieces gives the text back. -/
theorem joinWith_splitOn (sep : Char) (s : List Char) : joinWith [sep] (splitOn sep s) = s := by
  induction s with
  | nil => simp [splitOn, joinWith, List.intercalate]
  | cons c s ih =>
    by_cases h : c = sep
    · subst h
      obtain ⟨piece, more, hs⟩ := List.exists_cons_of_ne_nil (splitOn_ne_nil c s)
      rw [splitOn_cons_sep, hs]
      rw [hs] at ih
      simp only [joinWith, List.intercalate, List.intersperse_cons_cons, List.flatten_cons] at ih ⊢
      simpa using ih
    · obtain ⟨piece, more, hs, hc⟩ := splitOn_cons_of_ne s h
      rw [hc]
      rw [hs] at ih
      cases more with
      | nil => simpa [joinWith, List.intercalate] using ih
      | cons next more =>
        simp only [joinWith, List.intercalate, List.intersperse_cons_cons, List.flatten_cons] at ih ⊢
        simpa using ih

theorem splitOn_of_not_mem {sep : Char} {s : List Char} (h : sep ∉ s) : splitOn sep s = [s] := by
  induction s with
  | nil => rfl
  | cons c s ih =>
    rw [List.mem_cons, not_or] at h
    obtain ⟨piece, more, hs, hcons⟩ := splitOn_cons_of_ne s (Ne.symm h.1)
    rw [ih h.2] at hs
    rw [hcons]
    simp_all

/-- The pieces of two texts with a separator between them. -/
theorem splitOn_append_sep (sep : Char) (s t : List Char) :
    splitOn sep (s ++ sep :: t) = splitOn sep s ++ splitOn sep t := by
  induction s with
  | nil => exact splitOn_cons_sep sep t
  | cons c s ih =>
    by_cases h : c = sep
    · subst h
      rw [List.cons_append, splitOn_cons_sep, splitOn_cons_sep, ih]
      rfl
    · obtain ⟨piece, more, hs, hcons⟩ := splitOn_cons_of_ne s h
      obtain ⟨piece', more', hs', hcons'⟩ := splitOn_cons_of_ne (s ++ sep :: t) h
      rw [ih, hs] at hs'
      obtain ⟨rfl, rfl⟩ := List.cons.inj hs'
      rw [List.cons_append, hcons', hcons]
      rfl

theorem splitOn_append_cons {sep : Char} {piece : List Char} (h : sep ∉ piece) (s : List Char) :
    splitOn sep (piece ++ sep :: s) = piece :: splitOn sep s := by
  rw [splitOn_append_sep, splitOn_of_not_mem h]
  rfl

theorem joinWith_append (sep : List Char) {pieces more : List (List Char)} (hpieces : pieces ≠ [])
    (hmore : more ≠ []) :
    joinWith sep (pieces ++ more) = joinWith sep pieces ++ sep ++ joinWith sep more := by
  induction pieces with
  | nil => exact absurd rfl hpieces
  | cons piece pieces ih =>
    obtain ⟨next, after, rfl⟩ := List.exists_cons_of_ne_nil hmore
    cases pieces with
    | nil => simp [joinWith, List.intercalate_cons_cons]
    | cons second pieces =>
      have hrest := ih (List.cons_ne_nil _ _)
      simp only [joinWith, List.cons_append, List.intercalate_cons_cons] at hrest ⊢
      rw [hrest]
      simp

/-- Cutting joined pieces gives the pieces back, if none of them holds the separator. -/
theorem splitOn_joinWith {sep : Char} {pieces : List (List Char)} (hne : pieces ≠ [])
    (h : ∀ piece ∈ pieces, sep ∉ piece) : splitOn sep (joinWith [sep] pieces) = pieces := by
  induction pieces with
  | nil => exact absurd rfl hne
  | cons piece pieces ih =>
    have hpiece := h piece List.mem_cons_self
    cases pieces with
    | nil => simpa [joinWith] using splitOn_of_not_mem hpiece
    | cons next more =>
      have hmore := ih (List.cons_ne_nil _ _) fun p hp => h p (List.mem_cons_of_mem _ hp)
      calc splitOn sep (joinWith [sep] (piece :: next :: more))
          = splitOn sep (piece ++ sep :: joinWith [sep] (next :: more)) := by
            simp [joinWith, List.intercalate_cons_cons]
        _ = piece :: next :: more := by rw [splitOn_append_cons hpiece, hmore]

/-- No piece holds the separator. -/
theorem not_mem_of_mem_splitOn {sep : Char} {s piece : List Char} (h : piece ∈ splitOn sep s) :
    sep ∉ piece := by
  induction s generalizing piece with
  | nil => simp_all [splitOn]
  | cons c s ih =>
    by_cases hc : c = sep
    · subst hc
      rw [splitOn_cons_sep] at h
      rcases List.mem_cons.mp h with rfl | h
      · simp
      · exact ih h
    · obtain ⟨first, more, hs, hcons⟩ := splitOn_cons_of_ne s hc
      rw [hcons] at h
      rcases List.mem_cons.mp h with rfl | h
      · have := ih (hs ▸ List.mem_cons_self)
        simp [this, Ne.symm hc]
      · exact ih (hs ▸ List.mem_cons_of_mem _ h)

/-- The lines of a text put together are the text. -/
@[simp] theorem unlines_lines (s : List Char) : unlines (lines s) = s := joinWith_splitOn '\n' s

theorem unlines_append {ls more : List (List Char)} (hls : ls ≠ []) (hmore : more ≠ []) :
    unlines (ls ++ more) = unlines ls ++ '\n' :: unlines more := by
  simpa [unlines] using joinWith_append ['\n'] hls hmore

theorem unlines_singleton (line : List Char) : unlines [line] = line := by
  simp [unlines, joinWith]

theorem unlines_cons (line : List Char) {more : List (List Char)} (hmore : more ≠ []) :
    unlines (line :: more) = line ++ '\n' :: unlines more := by
  rw [← List.singleton_append, unlines_append (List.cons_ne_nil _ _) hmore, unlines_singleton]

theorem mem_unlines {ls : List (List Char)} {line : List Char} {c : Char} (hline : line ∈ ls)
    (hc : c ∈ line) : c ∈ unlines ls := by
  induction ls with
  | nil => cases hline
  | cons first more ih =>
    by_cases hmore : more = []
    · subst hmore
      rwa [unlines_singleton, ← List.mem_singleton.mp hline]
    · rw [unlines_cons first hmore]
      rcases List.mem_cons.mp hline with rfl | hline
      · exact List.mem_append_left _ hc
      · exact List.mem_append_right _ (List.mem_cons_of_mem _ (ih hline))

/-- The first lines of a text are where the text begins, and what comes after them begins with a line
feed. -/
theorem exists_unlines_eq_append (ls : List (List Char)) {n : Nat} (hn : 0 < n) :
    ∃ tail, unlines ls = unlines (ls.take n) ++ tail ∧ ∀ c ∈ tail.head?, c = '\n' := by
  by_cases hlast : ls.drop n = []
  · refine ⟨[], ?_, by simp⟩
    rw [List.append_nil, List.take_of_length_le (List.drop_eq_nil_iff.mp hlast)]
  · refine ⟨'\n' :: unlines (ls.drop n), ?_, by simp⟩
    have hfirst : ls.take n ≠ [] := by
      rintro hnil
      rcases List.take_eq_nil_iff.mp hnil with hzero | rfl
      · omega
      · simp at hlast
    rw [← unlines_append hfirst hlast, List.take_append_drop]

/-- The text with every line end a line feed: a carriage return and a line feed together are one
line end, and so is a carriage return alone. -/
def unifyLineEnds (s : List Char) : List Char := go s []
where
  /-- Goes on with the text before it in reverse. -/
  go : List Char → List Char → List Char
    | [], done => done.reverse
    | '\r' :: '\n' :: rest, done => go rest ('\n' :: done)
    | '\r' :: rest, done => go rest ('\n' :: done)
    | c :: rest, done => go rest (c :: done)

end Vicinity.Text
