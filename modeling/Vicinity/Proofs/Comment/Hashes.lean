import Vicinity.Proofs.Comment.Replacing
import Vicinity.Proofs.Comment.Tidying

/-!
# Comments that begin with a hash

The scan for comments of the indentation family knows nothing of lines: it may take a line feed together
with the hash after it, and goes on behind the comment. What it leaves is what is left if each line is cut
on its own, at its first hash that comes at the beginning of the line or after a blank.

## What is proved

* `HashFree`, `hashFree_iff_lines`: no hash begins a comment, in a text or in each of its lines.
* `hashFree_cutAtHash`, `cutAtHash_of_hashFree`: cutting a line leaves no such hash, and leaves a line
  without one as it is.
* `lines_cleaned_hash`: the scan is cutting each line, but for blanks at the ends of lines.
* `strip_linewise`: taking comments out goes line by line, and a second time there is nothing to do.
-/

namespace Vicinity.Comment

open Vicinity.Text

/-! ### Hashes -/

/-- In a text that comes after the character `before`, every hash comes after a character that is no
blank. -/
def HashFreeAfter (before : Option Char) (s : List Char) : Prop :=
  ∀ front rest, s = front ++ '#' :: rest → ∃ c ∈ front.getLast?.or before, isBlank c = false

/-- No hash comes at the beginning of the text or after a blank; a line feed is a blank. -/
def HashFree (s : List Char) : Prop := HashFreeAfter none s

theorem hashFreeAfter_nil (before : Option Char) : HashFreeAfter before [] := by
  intro front rest h
  simp at h

theorem hashFreeAfter_cons {before : Option Char} {c : Char} {s : List Char} :
    HashFreeAfter before (c :: s) ↔
      (c = '#' → ∃ d ∈ before, isBlank d = false) ∧ HashFreeAfter (some c) s := by
  constructor
  · intro h
    refine ⟨fun hc => ?_, fun front rest hs => ?_⟩
    · subst hc
      exact h [] s rfl
    · rw [← getLast?_cons_or c front before]
      exact h (c :: front) rest (by rw [hs, List.cons_append])
  · rintro ⟨hfirst, hmore⟩ (_ | ⟨d, front⟩) rest hs
    · exact hfirst (List.cons.inj hs).1
    · obtain ⟨rfl, htail⟩ := List.cons.inj hs
      rw [getLast?_cons_or]
      exact hmore front rest htail

theorem hashFreeAfter_append {before : Option Char} {s t : List Char} :
    HashFreeAfter before (s ++ t) ↔
      HashFreeAfter before s ∧ HashFreeAfter (s.getLast?.or before) t := by
  induction s generalizing before with
  | nil => simp [hashFreeAfter_nil]
  | cons c s ih =>
    rw [List.cons_append, hashFreeAfter_cons, hashFreeAfter_cons, ih, getLast?_cons_or, and_assoc]

/-- After a blank it is as at the beginning. -/
theorem hashFreeAfter_of_blank {before : Option Char} (h : ∀ c ∈ before, isBlank c = true)
    {s : List Char} : HashFreeAfter before s ↔ HashFree s := by
  refine forall_congr' fun front => forall_congr' fun rest => imp_congr_right fun _ => ?_
  cases hlast : front.getLast? with
  | some c => simp
  | none =>
    constructor
    · rintro ⟨c, hc, hblank⟩
      rw [h c (by simpa using hc)] at hblank
      cases hblank
    · rintro ⟨c, hc, -⟩
      cases hc

theorem HashFree.of_isPrefix {s t : List Char} (h : HashFree t) (hs : s <+: t) : HashFree s := by
  obtain ⟨rest, rfl⟩ := hs
  exact (hashFreeAfter_append.mp h).1

/-- Two texts with a blank between them. -/
theorem hashFree_append_cons_iff {s t : List Char} {c : Char} (hc : isBlank c = true) :
    HashFree (s ++ c :: t) ↔ HashFree s ∧ HashFree t := by
  have hne : c ≠ '#' := fun heq => absurd (heq ▸ hc) (by decide)
  have hafter : HashFreeAfter (some c) t ↔ HashFree t := hashFreeAfter_of_blank (by simpa using hc)
  rw [HashFree, hashFreeAfter_append, hashFreeAfter_cons, hafter]
  simp [hne, HashFree]

theorem hashFree_unlines {ls : List (List Char)} :
    HashFree (unlines ls) ↔ ∀ line ∈ ls, HashFree line := by
  induction ls with
  | nil => exact ⟨fun _ _ h => absurd h List.not_mem_nil, fun _ => hashFreeAfter_nil none⟩
  | cons line more ih =>
    by_cases hmore : more = []
    · subst hmore
      simp [unlines_singleton]
    · rw [unlines_cons line hmore, hashFree_append_cons_iff isBlank_newline, ih]
      simp

/-- A text has no hash that begins a comment if none of its lines has one. -/
theorem hashFree_iff_lines {s : List Char} : HashFree s ↔ ∀ line ∈ lines s, HashFree line := by
  rw [← hashFree_unlines, unlines_lines]

theorem HashFree.trim {s : List Char} (h : HashFree s) : HashFree (trim s) := by
  have hstart : HashFree (trimStart s) := by
    rw [← List.takeWhile_append_dropWhile (p := isBlank) (l := s)] at h
    refine (hashFreeAfter_of_blank fun c hc => ?_).mp (hashFreeAfter_append.mp h).2
    rw [Option.or_none] at hc
    exact List.all_eq_true.mp List.all_takeWhile c (List.mem_of_getLast? hc)
  exact hstart.of_isPrefix (prefix_trimEnd _)

/-! ### Cutting a line -/

/-- The part of a line before the first hash that comes at the beginning or after a blank. -/
def cutAtHash (line : List Char) : List Char := go none line
where
  /-- Goes on after the character `before`. -/
  go : Option Char → List Char → List Char
    | _, [] => []
    | before, c :: rest => if c = '#' && before.all isBlank then [] else c :: go (some c) rest

/-- Of the character before only that matters whether it is a blank. -/
theorem cutAtHash_go_congr {before before' : Option Char} (h : before.all isBlank = before'.all isBlank)
    (line : List Char) : cutAtHash.go before line = cutAtHash.go before' line := by
  cases line with
  | nil => rfl
  | cons c line => rw [cutAtHash.go, cutAtHash.go, h]

theorem hashFreeAfter_go (before : Option Char) (line : List Char) :
    HashFreeAfter before (cutAtHash.go before line) := by
  induction line generalizing before with
  | nil => exact hashFreeAfter_nil before
  | cons c line ih =>
    rw [cutAtHash.go]
    split
    · exact hashFreeAfter_nil before
    · rename_i hcut
      refine hashFreeAfter_cons.mpr ⟨fun hc => ?_, ih (some c)⟩
      cases before with
      | none => simp [hc] at hcut
      | some d => exact ⟨d, rfl, by simpa [hc] using hcut⟩

/-- No hash that begins a comment is left. -/
theorem hashFree_cutAtHash (line : List Char) : HashFree (cutAtHash line) := hashFreeAfter_go none line

theorem go_of_hashFreeAfter {before : Option Char} {line : List Char} (h : HashFreeAfter before line) :
    cutAtHash.go before line = line := by
  induction line generalizing before with
  | nil => rfl
  | cons c line ih =>
    obtain ⟨hfirst, hmore⟩ := hashFreeAfter_cons.mp h
    have hcut : ¬(c = '#' && before.all isBlank) = true := by
      intro hcut
      rw [Bool.and_eq_true, decide_eq_true_eq] at hcut
      obtain ⟨d, rfl, hblank⟩ := hfirst hcut.1
      rw [Option.all_some, hblank] at hcut
      cases hcut.2
    rw [cutAtHash.go, if_neg hcut, ih hmore]

theorem cutAtHash_of_hashFree {line : List Char} (h : HashFree line) : cutAtHash line = line :=
  go_of_hashFreeAfter h

/-! ### The scan, line by line -/

/-- The lines of a text that comes after the character `before`, each cut at its hash. -/
def cutLines (before : Option Char) (s : List Char) : List (List Char) :=
  match lines s with
  | [] => []
  | first :: more => cutAtHash.go before first :: more.map cutAtHash

theorem cutLines_none (s : List Char) : cutLines none s = (lines s).map cutAtHash := by
  obtain ⟨first, more, hlines⟩ := exists_lines_eq_cons s
  rw [cutLines, hlines]
  rfl

/-- Of a comment up to the end of its line nothing is left. -/
theorem cutLines_comment {before : Option Char} (hbefore : before.all isBlank = true)
    {body tail : List Char} (hbody : '\n' ∉ body) (htail : ∀ c ∈ tail.head?, c = '\n')
    (last : Option Char) : cutLines before ('#' :: body ++ tail) = cutLines last tail := by
  have hline : lines ('#' :: body) = [] ++ ['#' :: body] := lines_of_not_mem (by simpa using hbody)
  obtain ⟨first, more, hlines⟩ := exists_lines_eq_cons tail
  have hfirst : first = [] := by
    cases tail with
    | nil => cases hlines; rfl
    | cons c tail =>
      obtain rfl := htail c rfl
      rw [lines_newline] at hlines
      cases hlines
      rfl
  subst hfirst
  rw [cutLines, lines_append hline hlines, cutLines, hlines]
  simp [cutAtHash.go, hbefore]

theorem trimEnd_cons_congr {s t : List Char} (h : trimEnd s = trimEnd t) (c : Char) :
    trimEnd (c :: s) = trimEnd (c :: t) := by
  rw [trimEnd_cons, trimEnd_cons, h, ← allBlank_trimEnd s, h, allBlank_trimEnd]

/-- A character that is kept. -/
theorem lines_cons_congr {before : Option Char} {c : Char} {s t : List Char}
    (hc : ¬(c = '#' && before.all isBlank) = true)
    (h : (lines t).map trimEnd = (cutLines (some c) s).map trimEnd) :
    (lines (c :: t)).map trimEnd = (cutLines before (c :: s)).map trimEnd := by
  obtain ⟨first, more, hs⟩ := exists_lines_eq_cons s
  obtain ⟨first', more', ht⟩ := exists_lines_eq_cons t
  rw [cutLines, hs, ht] at h
  obtain ⟨hfirst, hmore⟩ := List.cons.inj h
  by_cases hnewline : c = '\n'
  · subst hnewline
    have hgo : cutAtHash.go (some '\n') first = cutAtHash first :=
      cutAtHash_go_congr (by rw [Option.all_some, isBlank_newline]; rfl) first
    rw [cutLines, lines_newline, lines_newline, hs, ht]
    simpa [cutAtHash.go, hgo] using h
  · rw [cutLines, lines_cons_of_ne hnewline hs, lines_cons_of_ne hnewline ht]
    simp only [List.map_cons, cutAtHash.go, if_neg hc, trimEnd_cons_congr hfirst, hmore]

/-- A comment takes the rest of its line, and a blank before the hash, which is kept. -/
theorem exists_of_hashComment {before : Option Char} {s : List Char} {found : Found}
    (h : hashComment before s = some found) :
    ∃ body tail, '\n' ∉ body ∧ (∀ c ∈ tail.head?, c = '\n') ∧
      ((isLineStart before = true ∧ s = '#' :: body ++ tail ∧ found = ⟨[], ('#' :: body).length⟩) ∨
        ∃ c, isBlank c = true ∧ s = c :: '#' :: body ++ tail ∧
          found = ⟨[c], (c :: '#' :: body).length⟩) := by
  unfold hashComment at h
  split at h
  · rename_i rest
    split at h
    · rename_i hstart
      obtain ⟨body, tail, rfl, hbody, hlength, htail⟩ := line_split rest
      cases h
      refine ⟨body, tail, hbody, htail, .inl ⟨hstart, rfl, ?_⟩⟩
      rw [hlength, List.length_cons, Nat.add_comm]
    · cases h
  · rename_i c rest _
    split at h
    · rename_i hblank
      obtain ⟨body, tail, rfl, hbody, hlength, htail⟩ := line_split rest
      cases h
      refine ⟨body, tail, hbody, htail, .inr ⟨c, hblank, rfl, ?_⟩⟩
      rw [hlength, List.length_cons, List.length_cons, Nat.add_comm]
    · cases h
  · cases h

/-- Where no comment begins, no hash begins a line, and no hash comes after a blank. -/
theorem hashComment_eq_none {before : Option Char} {c : Char} {s : List Char}
    (h : hashComment before (c :: s) = none) :
    (c = '#' → isLineStart before = false) ∧ (s.head? = some '#' → isBlank c = false) := by
  have hhash : isBlank '#' = false := by decide
  unfold hashComment at h
  split at h
  · rename_i rest heq
    obtain ⟨rfl, rfl⟩ := List.cons.inj heq
    exact ⟨fun _ => by simpa using h, fun _ => hhash⟩
  · rename_i d rest hne heq
    obtain ⟨rfl, rfl⟩ := List.cons.inj heq
    exact ⟨fun hc => absurd hc hne, fun _ => by simpa using h⟩
  · rename_i hfirst hsecond
    refine ⟨fun hc => absurd (congrArg (· :: s) hc) (hfirst s), fun hs => ?_⟩
    obtain ⟨rest, rfl⟩ := List.head?_eq_some_iff.mp hs
    exact absurd rfl (hsecond c rest)

/-- **The scan goes line by line**: what it keeps are the lines, each cut at its hash, but for blanks at
their ends. A hash that comes after a blank has been taken together with it. -/
theorem lines_cleaned_hash (before : Option Char) (s : List Char)
    (hbefore : s.head? = some '#' → ∀ c ∈ before, isBlank c = true → c = '\n') :
    (lines (cleaned hashComment before s)).map trimEnd = (cutLines before s).map trimEnd := by
  induction hlength : s.length using Nat.strongRecOn generalizing before s with
  | _ n ih =>
    have hnext : ∀ last : Option Char, ∀ tail : List Char, tail.length < n →
        (∀ c ∈ tail.head?, c = '\n') →
        (lines (cleaned hashComment last tail)).map trimEnd = (cutLines last tail).map trimEnd := by
      intro last tail hlt htail
      refine ih _ hlt last tail (fun hhash => ?_) rfl
      exact absurd (htail '#' hhash) (by decide)
    cases hfound : hashComment before s with
    | some found =>
      obtain ⟨body, tail, hbody, htail, ⟨hstart, rfl, rfl⟩ | ⟨c, hblank, rfl, rfl⟩⟩ :=
        exists_of_hashComment hfound
      · have hall : before.all isBlank = true := by
          cases before with
          | none => rfl
          | some d =>
            have hd : d = '\n' := by simpa [isLineStart] using hstart
            rw [hd]
            exact isBlank_newline
        rw [cleaned_of_some (List.cons_ne_nil _ _) hfound, List.nil_append,
          cutLines_comment hall hbody htail ('#' :: body).getLast?]
        exact hnext _ tail (by simp at hlength; omega) htail
      · have hc : c ≠ '#' := fun heq => absurd (heq ▸ hblank) (by decide)
        have hall : (some c).all isBlank = true := by rw [Option.all_some, hblank]
        have hcut := cutLines_comment hall hbody htail (c :: '#' :: body).getLast?
        rw [cleaned_of_some (List.cons_ne_nil _ _) hfound, List.singleton_append]
        refine lines_cons_congr (by simp [hc]) ?_
        exact (hnext _ tail (by simp at hlength; omega) htail).trans (congrArg (List.map trimEnd) hcut.symm)
    | none =>
      cases s with
      | nil => rfl
      | cons c s =>
        obtain ⟨hstart, hblank⟩ := hashComment_eq_none hfound
        rw [cleaned_of_none hfound]
        refine lines_cons_congr (fun hcut => ?_) (ih s.length (by simp at hlength; omega) _ s ?_ rfl)
        · rw [Bool.and_eq_true, decide_eq_true_eq] at hcut
          obtain ⟨rfl, hall⟩ := hcut
          cases before with
          | none => exact absurd (hstart rfl) (by decide)
          | some d =>
            have hd : d = '\n' := hbefore rfl d rfl (by simpa using hall)
            subst hd
            exact absurd (hstart rfl) (by decide)
        · intro hhash d hd hdblank
          obtain rfl := Option.mem_some.mp hd
          rw [hblank hhash] at hdblank
          cases hdblank

/-! ### Taking comments out -/

/-- Each line cut at its hash and trimmed at its end, several empty lines in a row made one, and the
whole trimmed. -/
def stripLines (s : List Char) : List Char :=
  trim (unlines (((lines s).map fun line => trimEnd (cutAtHash line)).destutter Spaced))

/-- Whether empty lines at the beginning are left out or made one makes no difference once the text is
trimmed. -/
theorem trim_collapseEmpty (ls : List (List Char)) :
    trim (unlines (collapseEmpty true ls)) = trim (unlines (ls.destutter Spaced)) := by
  cases ls with
  | nil => rfl
  | cons line more =>
    rw [collapseEmpty_true_cons, List.destutter_cons']
    split
    · rename_i hempty
      subst hempty
      rw [← cons_collapseEmpty]
      by_cases hnil : collapseEmpty true more = []
      · have hmore : collapseEmpty ([] : List Char).isEmpty more = [] := hnil
        rw [hnil, hmore]
        rfl
      · have hcons := unlines_cons [] hnil
        rw [List.nil_append] at hcons
        have hcollapsed : collapseEmpty ([] : List Char).isEmpty more = collapseEmpty true more := rfl
        rw [hcollapsed, hcons, trim, trim, trimStart_cons_of_blank _ isBlank_newline]
    · rfl

theorem strip_indentation_eq (s : List Char) : strip .indentation s = stripLines s := by
  have hscan := lines_cleaned_hash none s fun _ _ hc => absurd hc (Option.not_mem_none _)
  rw [cutLines_none, List.map_map] at hscan
  show tidy (replaceAll hashComment s) = stripLines s
  rw [tidy, replaceAll_eq, hscan, trim_collapseEmpty]
  rfl

theorem isTidy_strip (family : LanguageFamily) (s : List Char) : IsTidy (strip family s) := by
  cases family with
  | indentation => exact isTidy_tidy _
  | brace => exact isTidy_tidy _

theorem hashFree_stripLines (s : List Char) : HashFree (stripLines s) := by
  refine HashFree.trim (hashFree_unlines.mpr fun line hline => ?_)
  obtain ⟨whole, -, rfl⟩ := List.mem_map.mp ((List.destutter_sublist Spaced _).subset hline)
  exact (hashFree_cutAtHash whole).of_isPrefix (prefix_trimEnd _)

/-- A tidy text without hashes that begin comments is left as it is. -/
theorem stripLines_of_hashFree {s : List Char} (h : IsTidy s) (hfree : HashFree s) :
    stripLines s = s := by
  have hlines : (lines s).map (fun line => trimEnd (cutAtHash line)) = lines s := by
    refine (List.map_congr_left fun line hline => ?_).trans (List.map_id _)
    rw [cutAtHash_of_hashFree (hashFree_iff_lines.mp hfree line hline)]
    exact trimEnd_eq_self_iff.mpr (h.noTrailing line hline)
  rw [stripLines, hlines, List.destutter_of_isChain _ _ h.spaced, unlines_lines, h.trimmed]

/-- **Taking comments out goes line by line**: each line is cut at its first hash that comes at the
beginning or after a blank and trimmed at its end, several empty lines in a row become one, and the whole
is trimmed. So a second time there is nothing to do, and of the lines that are left none has such a hash
or a blank at its end, and no two in a row are empty. -/
theorem strip_linewise (s : List Char) :
    strip .indentation s = stripLines s ∧
      strip .indentation (strip .indentation s) = strip .indentation s ∧
      (∀ line ∈ lines (strip .indentation s),
        HashFree line ∧ ∀ c ∈ line.getLast?, isBlank c = false) ∧
      (lines (strip .indentation s)).IsChain fun line next => line ≠ [] ∨ next ≠ [] := by
  have htidy := isTidy_strip .indentation s
  have hfree : HashFree (strip .indentation s) := by
    rw [strip_indentation_eq]
    exact hashFree_stripLines s
  refine ⟨strip_indentation_eq s, ?_, fun line hline => ⟨?_, htidy.noTrailing line hline⟩, htidy.spaced⟩
  · rw [strip_indentation_eq (strip .indentation s), stripLines_of_hashFree htidy hfree]
  · exact hashFree_iff_lines.mp hfree line hline

/-- A line with nothing but a comment leaves an empty line, and one at the end none. -/
example : strip .indentation "class A:\n    # field\n    x: int  # trailing\n# end\n".toList =
    "class A:\n\n    x: int".toList := by decide +kernel

end Vicinity.Comment
