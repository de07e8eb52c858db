import Mathlib.Data.List.Destutter
import Vicinity.Declaration.Comment
import Vicinity.Proofs.Text.Offsets

/-!
# Tidying

What is left of a declaration when its comments are gone is tidied: lines lose their trailing blanks,
of several empty lines in a row one stays, and the whole is trimmed. `IsTidy` says what a text looks
like after that, and such a text is left as it is, so that tidying twice is tidying once.

## What is proved

* `cons_collapseEmpty`: collapsing empty lines is keeping each line that is not an empty one after an
  empty one.
* `IsTidy.tidy_eq`, `isTidy_tidy`: the tidy texts are those that tidying gives.
* `Respaced`, `respaced_tidy`: all that tidying does is to take blanks away, at the ends of the text or
  next to blanks that stay.
-/

namespace Vicinity.Comment

open Vicinity.Text

/-- Of two lines in a row at least one is not empty. -/
def Spaced (line next : List Char) : Prop := line ≠ [] ∨ next ≠ []

instance : DecidableRel Spaced := fun line next => inferInstanceAs (Decidable (line ≠ [] ∨ next ≠ []))

/-- A text whose lines have no trailing blanks and no two empty ones in a row among them. -/
structure Settled (s : List Char) : Prop where
  noTrailing : ∀ line ∈ lines s, ∀ c ∈ line.getLast?, isBlank c = false
  spaced : (lines s).IsChain Spaced

/-- A settled text without blanks at its ends. -/
structure IsTidy (s : List Char) : Prop extends Settled s where
  trimmed : trim s = s

/-! ### Trimming -/

theorem trimEnd_eq_self_iff {s : List Char} : trimEnd s = s ↔ ∀ c ∈ s.getLast?, isBlank c = false := by
  rcases List.eq_nil_or_concat s with rfl | ⟨front, c, rfl⟩
  · simp
  · rw [List.concat_eq_append, List.getLast?_concat]
    constructor
    · intro h d hd
      obtain rfl := Option.mem_some.mp hd
      by_contra hblank
      have hlast : trimEnd (front ++ [c]) = trimEnd front := by
        have hc : isBlank c = true := by simpa using hblank
        simp [trimEnd, trimEndWhile, hc]
      have hle := (prefix_trimEnd front).length_le
      have hlength := congrArg List.length h
      rw [hlast, List.length_append, List.length_singleton] at hlength
      omega
    · intro h
      rw [trimEnd_append (h c rfl), trimEnd_nil]

theorem noTrailing_trimEnd (s : List Char) : ∀ c ∈ (trimEnd s).getLast?, isBlank c = false :=
  trimEnd_eq_self_iff.mp (trimEnd_trimEnd s)

theorem not_blank_of_trimStart {s : List Char} : ∀ c ∈ (trimStart s).head?, isBlank c = false := by
  intro c hc
  have hhead := List.head?_dropWhile_not isBlank s
  rw [trimStart] at hc
  rw [Option.mem_def.mp hc] at hhead
  simpa using hhead

theorem not_blank_of_trim {s : List Char} : ∀ c ∈ (trim s).head?, isBlank c = false := by
  intro c hc
  obtain ⟨tail, htail⟩ := prefix_trimEnd (trimStart s)
  refine not_blank_of_trimStart (s := s) c ?_
  rw [← htail, List.head?_append, show (trimEnd (trimStart s)).head? = some c from hc]
  rfl

/-! ### Collapsing empty lines -/

/-- **Collapsing after a line** keeps each line that is not an empty one after an empty one. -/
theorem cons_collapseEmpty (line : List Char) (more : List (List Char)) :
    line :: collapseEmpty line.isEmpty more = more.destutter' Spaced line := by
  induction more generalizing line with
  | nil => rfl
  | cons next more ih =>
    by_cases h : Spaced line next
    · have hkept : (next.isEmpty && line.isEmpty) = false := by
        rcases h with h | h <;> simp [h]
      rw [List.destutter'_cons_pos _ h, collapseEmpty, hkept, ← ih]
      rfl
    · obtain ⟨rfl, rfl⟩ : line = [] ∧ next = [] := by simpa [Spaced] using h
      rw [List.destutter'_cons_neg _ h, ← ih]
      rfl

theorem collapseEmpty_true_cons (line : List Char) (more : List (List Char)) :
    collapseEmpty true (line :: more) =
      if line = [] then collapseEmpty true more else more.destutter' Spaced line := by
  by_cases h : line = []
  · simp [collapseEmpty, h]
  · rw [if_neg h, ← cons_collapseEmpty]
    simp [collapseEmpty, h]

theorem collapseEmpty_sublist (afterEmpty : Bool) (ls : List (List Char)) :
    (collapseEmpty afterEmpty ls).Sublist ls := by
  induction ls generalizing afterEmpty with
  | nil => exact .slnil
  | cons line more ih =>
    unfold collapseEmpty
    split
    · exact (ih true).cons line
    · exact (ih line.isEmpty).cons_cons line

theorem isChain_collapseEmpty (ls : List (List Char)) : (collapseEmpty true ls).IsChain Spaced := by
  induction ls with
  | nil => exact .nil
  | cons line more ih =>
    rw [collapseEmpty_true_cons]
    split
    · exact ih
    · exact List.isChain_destutter' Spaced more line

/-! ### Tidy texts -/

/-- What comes after the beginning of a settled text is settled, if it does not begin with a line
feed. -/
theorem Settled.of_append_right {front s : List Char} (h : Settled (front ++ s))
    (hs : s.head? ≠ some '\n') : Settled s := by
  obtain ⟨before, last, hfront⟩ := exists_lines_eq_concat front
  obtain ⟨first, after, hlines⟩ := exists_lines_eq_cons s
  obtain ⟨hends, hspaced⟩ := h
  rw [lines_append hfront hlines] at hends hspaced
  have hchain : ((last ++ first) :: after).IsChain Spaced := hspaced.right_of_append
  refine ⟨?_, ?_⟩
  · rw [hlines]
    intro line hline c hc
    rcases List.mem_cons.mp hline with rfl | hline
    · refine hends (last ++ line) (by simp) c ?_
      rw [List.getLast?_append, Option.mem_def.mp hc]
      rfl
    · exact hends line (by simp [hline]) c hc
  · rw [hlines]
    cases after with
    | nil => exact .singleton first
    | cons next after =>
      rw [List.isChain_cons_cons] at hchain ⊢
      refine ⟨.inl ?_, hchain.2⟩
      -- an empty first line with another one after it is a line feed at the beginning
      rintro rfl
      obtain ⟨tail, rfl, hhead⟩ := begins_with_first hlines
      cases s with
      | nil => cases hlines
      | cons c s => exact hs (congrArg some (hhead c rfl))

/-- The beginning of a settled text is settled, if it does not end with a blank. -/
theorem Settled.of_append_left {s tail : List Char} (h : Settled (s ++ tail))
    (hs : ∀ c ∈ s.getLast?, isBlank c = false) : Settled s := by
  obtain ⟨before, last, hlines⟩ := exists_lines_eq_concat s
  obtain ⟨first, after, htail⟩ := exists_lines_eq_cons tail
  obtain ⟨hends, hspaced⟩ := h
  rw [lines_append hlines htail] at hends hspaced
  have hlast : ∀ c ∈ last.getLast?, isBlank c = false := by
    intro c hc
    refine hs c ?_
    rcases ends_with_last hlines with rfl | ⟨front, rfl⟩
    · exact hc
    · rw [List.getLast?_append, List.getLast?_cons, Option.mem_def.mp hc]
      rfl
  refine ⟨?_, ?_⟩
  · rw [hlines]
    intro line hline
    rcases List.mem_append.mp hline with hline | hline
    · exact hends line (List.mem_append_left _ hline)
    · rwa [List.mem_singleton.mp hline]
  · rw [hlines]
    refine List.isChain_append.mpr ⟨hspaced.left_of_append, .singleton last, ?_⟩
    intro line hline next hnext
    obtain rfl := Option.some.inj hnext
    refine .inr fun hempty => ?_
    -- an empty last line with another one before it is a line feed at the end
    subst hempty
    rcases ends_with_last hlines with rfl | ⟨front, rfl⟩
    · cases before with
      | nil => cases hline
      | cons line before => simp [lines, splitOn] at hlines
    · exact absurd (hs '\n' (by simp)) (by decide)

/-- **A settled text is tidy when it has been trimmed.** -/
theorem Settled.isTidy_trim {s : List Char} (h : Settled s) : IsTidy (trim s) := by
  have hwhole : Settled (s.takeWhile isBlank ++ trimStart s) := by
    rwa [trimStart, List.takeWhile_append_dropWhile]
  have hstart : Settled (trimStart s) :=
    hwhole.of_append_right fun hhead => absurd (not_blank_of_trimStart '\n' hhead) (by decide)
  obtain ⟨tail, htail⟩ := prefix_trimEnd (trimStart s)
  rw [← htail] at hstart
  exact ⟨hstart.of_append_left (noTrailing_trimEnd _), trim_trim s⟩

/-- The text of lines without trailing blanks, when empty lines have been collapsed. -/
theorem settled_collapsed (s : List Char) :
    Settled (unlines (collapseEmpty true ((lines s).map trimEnd))) := by
  have hsub := (collapseEmpty_sublist true ((lines s).map trimEnd)).subset
  have hline : ∀ line ∈ collapseEmpty true ((lines s).map trimEnd), '\n' ∉ line ∧
      ∀ c ∈ line.getLast?, isBlank c = false := by
    intro line hmem
    obtain ⟨whole, hwhole, rfl⟩ := List.mem_map.mp (hsub hmem)
    refine ⟨fun hnewline => ?_, noTrailing_trimEnd whole⟩
    exact not_mem_of_mem_splitOn hwhole ((prefix_trimEnd whole).subset hnewline)
  by_cases hnil : collapseEmpty true ((lines s).map trimEnd) = []
  · rw [hnil]
    exact ⟨by simp [unlines, joinWith, lines, splitOn], .singleton []⟩
  · have hlines := lines_unlines hnil fun line hmem => (hline line hmem).1
    refine ⟨?_, ?_⟩
    · rw [hlines]
      exact fun line hmem => (hline line hmem).2
    · rw [hlines]
      exact isChain_collapseEmpty _

/-- **Tidying gives a tidy text.** -/
theorem isTidy_tidy (s : List Char) : IsTidy (tidy s) := (settled_collapsed s).isTidy_trim

/-- **A tidy text is left as it is.** -/
theorem IsTidy.tidy_eq {s : List Char} (h : IsTidy s) : tidy s = s := by
  cases s with
  | nil => rfl
  | cons c s =>
    have hc : isBlank c = false := not_blank_of_trim (s := c :: s) c (by rw [h.trimmed]; rfl)
    have hnewline : c ≠ '\n' := fun heq => absurd (heq ▸ hc) (by decide)
    obtain ⟨first, more, hlines⟩ := exists_lines_eq_cons s
    have hends : (lines (c :: s)).map trimEnd = lines (c :: s) := by
      refine (List.map_congr_left fun line hline => ?_).trans (List.map_id _)
      exact trimEnd_eq_self_iff.mpr (h.noTrailing line hline)
    have hcollapsed : collapseEmpty true (lines (c :: s)) = lines (c :: s) := by
      have hspaced := h.spaced
      rw [lines_cons_of_ne hnewline hlines] at hspaced ⊢
      rw [collapseEmpty_true_cons, if_neg (List.cons_ne_nil c first),
        List.destutter'_of_isChain_cons _ _ hspaced]
    rw [tidy, hends, hcollapsed, unlines_lines, h.trimmed]

/-! ### What tidying takes away -/

/-- `Respaced t s`: `t` is `s` without some blanks that stand at its ends or next to blanks that stay. -/
inductive Respaced : List Char → List Char → Prop where
  /-- Nothing is taken away. -/
  | refl (s : List Char) : Respaced s s
  /-- Blanks are taken away and then others. -/
  | trans {s t u : List Char} (h : Respaced s t) (h' : Respaced t u) : Respaced s u
  /-- A blank at the beginning is taken away. -/
  | start {c : Char} (hc : isBlank c = true) (s : List Char) : Respaced s (c :: s)
  /-- A blank at the end is taken away. -/
  | stop {c : Char} (hc : isBlank c = true) (s : List Char) : Respaced s (s ++ [c])
  /-- Blanks are taken away before and after a blank that stays. -/
  | between {c : Char} (hc : isBlank c = true) {s s' t t' : List Char} (h : Respaced s s')
      (h' : Respaced t t') : Respaced (s ++ c :: t) (s' ++ c :: t')

theorem respaced_trimStart (s : List Char) : Respaced (trimStart s) s := by
  induction s with
  | nil => exact .refl []
  | cons c s ih =>
    by_cases hc : isBlank c = true
    · rw [trimStart_cons_of_blank s hc]
      exact ih.trans (.start hc s)
    · rw [trimStart_cons_of_not_blank s (by simpa using hc)]
      exact .refl _

theorem respaced_trimEnd (s : List Char) : Respaced (trimEnd s) s := by
  induction s using List.reverseRecOn with
  | nil => exact .refl []
  | append_singleton s c ih =>
    by_cases hc : isBlank c = true
    · have hend : trimEnd (s ++ [c]) = trimEnd s := by simp [trimEnd, trimEndWhile, hc]
      rw [hend]
      exact ih.trans (.stop hc s)
    · rw [trimEnd_append (by simpa using hc), trimEnd_nil]
      exact .refl _

theorem respaced_trim (s : List Char) : Respaced (trim s) s :=
  (respaced_trimEnd (trimStart s)).trans (respaced_trimStart s)

theorem isBlank_newline : isBlank '\n' = true := by decide

/-- A line and what comes after it. -/
theorem Respaced.line {line line' : List Char} (h : Respaced line' line)
    {more more' : List (List Char)} (hmore : more ≠ []) (h' : Respaced (unlines more') (unlines more)) :
    Respaced (unlines (line' :: more')) (unlines (line :: more)) := by
  rw [unlines_cons line hmore]
  by_cases hnil : more' = []
  · subst hnil
    rw [unlines_singleton]
    exact (Respaced.stop isBlank_newline line').trans (.between isBlank_newline h h')
  · rw [unlines_cons line' hnil]
    exact .between isBlank_newline h h'

/-- Collapsing the lines of a text when their ends have been trimmed. -/
theorem respaced_collapsed (afterEmpty : Bool) (ls : List (List Char)) :
    Respaced (unlines (collapseEmpty afterEmpty (ls.map trimEnd))) (unlines ls) := by
  induction ls generalizing afterEmpty with
  | nil => exact .refl _
  | cons line more ih =>
    have hline := respaced_trimEnd line
    rw [List.map_cons, collapseEmpty]
    split
    · rename_i hempty
      rw [Bool.and_eq_true, List.isEmpty_iff] at hempty
      rw [hempty.1] at hline
      by_cases hmore : more = []
      · subst hmore
        rw [unlines_singleton]
        exact hline
      · rw [unlines_cons line hmore]
        exact ((ih true).trans (.start isBlank_newline _)).trans (.between isBlank_newline hline (.refl _))
    · by_cases hmore : more = []
      · subst hmore
        simpa [collapseEmpty, unlines_singleton] using hline
      · exact hline.line hmore (ih _)

/-- **Tidying takes blanks away** and nothing else. -/
theorem respaced_tidy (s : List Char) : Respaced (tidy s) s := by
  have hcollapsed := respaced_collapsed true (lines s)
  rw [unlines_lines] at hcollapsed
  exact (respaced_trim _).trans hcollapsed

end Vicinity.Comment
