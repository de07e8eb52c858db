import Mathlib.Data.Finset.Sort
import Vicinity.Proofs.Disk.Enumeration

/-!
# Globs for directories

Most of the globs that exclude files name a directory, with stars before and after. Stars stand for slashes
too, so what such a glob matches has to be read off the text that is matched, which has slashes added to it.
The glob excludes what lies in a directory with this name, at any depth, and the directory itself. As all
that is in an excluded directory is excluded as well, nothing is lost by not walking into it.

## What is proved

* `Glob.matchesAll_iff`: which texts a glob matches.
* `isExcluded_directoryGlob`: what is excluded is told by the names of the directories on the path.
* `Disk.files_directoryGlobs`: the files are those that are not excluded by their own paths.
-/

namespace Vicinity

/-! ### What a glob matches -/

namespace Glob

/-- The texts that a glob stands for. -/
inductive Matches : Glob → List Char → Prop where
  /-- Nothing. -/
  | nil : Matches [] []
  /-- Any text, then what the rest stands for. -/
  | star {g : Glob} {s : List Char} (skipped : List Char) (h : Matches g s) :
      Matches (.star :: g) (skipped ++ s)
  /-- A character of a set. -/
  | oneOf {negated : Bool} {ranges : List (Char × Char)} {g : Glob} {c : Char} {s : List Char}
      (hc : (ranges.any fun r => r.1 ≤ c && c ≤ r.2) ≠ negated) (h : Matches g s) :
      Matches (.oneOf negated ranges :: g) (c :: s)
  /-- The character itself. -/
  | exactly {c : Char} {g : Glob} {s : List Char} (h : Matches g s) : Matches (.exactly c :: g) (c :: s)

variable {g : Glob} {s : List Char}

theorem anySuffix_iff {p : List Char → Bool} :
    anySuffix p s = true ↔ ∃ skipped rest, s = skipped ++ rest ∧ p rest = true := by
  induction s with
  | nil => simp [anySuffix]
  | cons c s ih =>
    rw [anySuffix, Bool.or_eq_true, ih]
    constructor
    · rintro (h | ⟨skipped, rest, rfl, h⟩)
      · exact ⟨[], c :: s, rfl, h⟩
      · exact ⟨c :: skipped, rest, rfl, h⟩
    · rintro ⟨skipped, rest, heq, h⟩
      rcases List.cons_eq_append_iff.mp heq with ⟨rfl, rfl⟩ | ⟨skipped, rfl, rfl⟩
      · exact .inl h
      · exact .inr ⟨skipped, rest, rfl, h⟩

theorem matches_star : Matches (.star :: g) s ↔ ∃ skipped rest, s = skipped ++ rest ∧ Matches g rest := by
  constructor
  · rintro (_ | ⟨skipped, h⟩)
    exact ⟨skipped, _, rfl, h⟩
  · rintro ⟨skipped, rest, rfl, h⟩
    exact .star skipped h

/-- Two stars stand for what one of them does. -/
theorem matches_star_star : Matches (.star :: .star :: g) s ↔ Matches (.star :: g) s := by
  simp only [matches_star]
  constructor
  · rintro ⟨skipped, _, rfl, more, rest, rfl, h⟩
    exact ⟨skipped ++ more, rest, by simp, h⟩
  · rintro ⟨skipped, rest, rfl, h⟩
    exact ⟨skipped, rest, rfl, [], rest, rfl, h⟩

theorem matchesAll_star (hg : ∀ s, matchesAll g s = true ↔ Matches g s) :
    matchesAll (.star :: g) s = true ↔ Matches (.star :: g) s := by
  by_cases hstar : ∃ more, g = .star :: more
  · obtain ⟨more, rfl⟩ := hstar
    rw [matchesAll, hg, matches_star_star]
  · rw [matchesAll, anySuffix_iff, matches_star]
    · simp only [hg]
    · exact fun more heq => hstar ⟨more, heq⟩

/-- **What is matched is what a glob stands for.** -/
theorem matchesAll_iff : matchesAll g s = true ↔ Matches g s := by
  induction g generalizing s with
  | nil =>
    rw [matchesAll, List.isEmpty_iff]
    constructor
    · rintro rfl
      exact .nil
    · rintro ⟨⟩
      rfl
  | cons piece g ih =>
    cases piece with
    | star => exact matchesAll_star fun _ => ih
    | oneOf negated ranges =>
      cases s with
      | nil => exact ⟨fun h => absurd h Bool.false_ne_true, fun h => by cases h⟩
      | cons c s =>
        rw [matchesAll, Bool.and_eq_true, bne_iff_ne, ih]
        constructor
        · rintro ⟨hc, h⟩
          exact .oneOf hc h
        · rintro (_ | _ | ⟨hc, h⟩)
          exact ⟨hc, h⟩
    | «exactly» d =>
      cases s with
      | nil => exact ⟨fun h => absurd h Bool.false_ne_true, fun h => by cases h⟩
      | cons c s =>
        rw [matchesAll, Bool.and_eq_true, beq_iff_eq, ih]
        constructor
        · rintro ⟨rfl, h⟩
          exact .exactly h
        · rintro (_ | _ | _ | h)
          exact ⟨rfl, h⟩

/-- A glob that begins with characters for themselves. -/
theorem matches_exactly_append {word : List Char} :
    Matches (word.map .exactly ++ g) s ↔ ∃ rest, s = word ++ rest ∧ Matches g rest := by
  induction word generalizing s with
  | nil => simp
  | cons c word ih =>
    constructor
    · rintro (_ | _ | _ | h)
      obtain ⟨rest, rfl, hrest⟩ := ih.mp h
      exact ⟨rest, rfl, hrest⟩
    · rintro ⟨rest, rfl, hrest⟩
      exact .exactly (ih.mpr ⟨rest, rfl, hrest⟩)

end Glob

/-! ### Globs that name a directory -/

/-- A name that holds no slash and no character with a meaning of its own in globs. -/
def IsPlain (name : String) : Prop :=
  ∀ c ∈ name.toList, c ≠ '/' ∧ c ≠ '*' ∧ c ≠ '?' ∧ c ≠ '['

/-- The glob for a directory with a name, anywhere, and all that is in it. -/
def directoryGlob (name : String) : String := "**/" ++ name ++ "/**"

section

variable {name path : String} {isDirectory : Bool}

theorem IsPlain.slash_not_mem (h : IsPlain name) : '/' ∉ name.toList :=
  fun hmem => (h '/' hmem).1 rfl

theorem Glob.ofText_go_append {word : List Char}
    (h : ∀ c ∈ word, c ≠ '*' ∧ c ≠ '?' ∧ c ≠ '[') (s : List Char) :
    ofText.go (word ++ s) 0 = word.map .exactly ++ ofText.go s 0 := by
  induction word with
  | nil => rfl
  | cons c word ih =>
    obtain ⟨⟨hstar, hquestion, hbracket⟩, hword⟩ := List.forall_mem_cons.mp h
    rw [List.cons_append, ofText.go, ih hword]
    · rfl
    all_goals assumption

theorem ofText_directoryGlob (h : IsPlain name) :
    Glob.ofText (directoryGlob name) =
      .star :: .star :: (('/' :: (name.toList ++ ['/'])).map .exactly ++ [.star, .star]) := by
  have hword : ∀ c ∈ '/' :: (name.toList ++ ['/']), c ≠ '*' ∧ c ≠ '?' ∧ c ≠ '[' := by
    intro c hc
    simp only [List.mem_cons, List.mem_append, List.not_mem_nil, or_false] at hc
    rcases hc with rfl | hc | rfl
    · decide
    · exact (h c hc).2
    · decide
  have htext : (directoryGlob name).toList =
      '*' :: '*' :: (('/' :: (name.toList ++ ['/'])) ++ ['*', '*']) := by
    simp [directoryGlob]
  rw [Glob.ofText, htext, Glob.ofText.go, Glob.ofText.go, Glob.ofText_go_append hword]
  rfl

/-- **Such a glob matches a text in which the name stands between two slashes.** -/
theorem matchesAll_directoryGlob (h : IsPlain name) {s : List Char} :
    (Glob.ofText (directoryGlob name)).matchesAll s = true ↔
      ∃ before after, s = before ++ '/' :: (name.toList ++ '/' :: after) := by
  have hstars : ∀ s, Glob.Matches [.star, .star] s := by
    intro s
    rw [Glob.matches_star_star, Glob.matches_star]
    exact ⟨s, [], (List.append_nil s).symm, .nil⟩
  rw [Glob.matchesAll_iff, ofText_directoryGlob h, Glob.matches_star_star, Glob.matches_star]
  constructor
  · rintro ⟨before, rest, rfl, hrest⟩
    obtain ⟨after, rfl, -⟩ := Glob.matches_exactly_append.mp hrest
    exact ⟨before, after, by simp⟩
  · rintro ⟨before, after, rfl⟩
    exact ⟨before, _, rfl, Glob.matches_exactly_append.mpr ⟨after, by simp, hstars after⟩⟩

/-! ### The directories on a path -/

/-- A piece of a text stands between two separators if it is neither the first nor the last one. -/
theorem Text.exists_between_iff {sep : Char} {word s : List Char} (hword : sep ∉ word) :
    (∃ before after, s = before ++ sep :: (word ++ sep :: after)) ↔
      word ∈ (splitOn sep s).tail.dropLast := by
  constructor
  · rintro ⟨before, after, rfl⟩
    obtain ⟨first, more, hbefore⟩ := List.exists_cons_of_ne_nil (splitOn_ne_nil sep before)
    rw [splitOn_append_sep, splitOn_append_cons hword, hbefore, List.cons_append, List.tail_cons,
      List.dropLast_append_of_ne_nil (List.cons_ne_nil _ _),
      List.dropLast_cons_of_ne_nil (splitOn_ne_nil sep after)]
    exact List.mem_append_right _ List.mem_cons_self
  · intro hmem
    obtain ⟨first, more, hpieces⟩ := List.exists_cons_of_ne_nil (splitOn_ne_nil sep s)
    rw [hpieces, List.tail_cons] at hmem
    obtain ⟨middle, last, rfl⟩ : ∃ middle last, more = middle ++ [last] := by
      rcases List.eq_nil_or_concat more with rfl | ⟨middle, last, rfl⟩
      · cases hmem
      · exact ⟨middle, last, by simp⟩
    rw [List.dropLast_concat] at hmem
    obtain ⟨front, back, rfl⟩ := List.append_of_mem hmem
    refine ⟨joinWith [sep] (first :: front), joinWith [sep] (back ++ [last]), ?_⟩
    calc s = joinWith [sep] (splitOn sep s) := (joinWith_splitOn sep s).symm
      _ = joinWith [sep] ((first :: front) ++ ([word] ++ (back ++ [last]))) := by
        rw [hpieces]
        simp
      _ = joinWith [sep] (first :: front) ++ sep :: (word ++ sep :: joinWith [sep] (back ++ [last])) := by
        rw [joinWith_append _ (by simp) (by simp), joinWith_append _ (by simp) (by simp)]
        simp [joinWith]

/-- The names of the directories on a path: all that it is made of, but for a file's own. -/
def directoriesOf (path : String) (isDirectory : Bool) : List String :=
  if isDirectory then wayOf path else (wayOf path).dropLast

/-- Nothing is cut off from a path without empty names. -/
theorem exclusionText_of_names (h : "" ∉ wayOf path) :
    exclusionText path isDirectory = '/' :: path.toList ++ if isDirectory then ['/'] else [] := by
  have hempty : [] ∉ Text.splitOn '/' path.toList := by
    rw [← map_toList_wayOf]
    intro hmem
    obtain ⟨name, hname, hnil⟩ := List.mem_map.mp hmem
    rw [String.toList_eq_nil_iff] at hnil
    exact h (hnil ▸ hname)
  have hfront : path.toList.dropWhile (· == '/') = path.toList := by
    cases hpath : path.toList with
    | nil => rfl
    | cons c s =>
      refine List.dropWhile_cons_of_neg ?_
      rw [beq_iff_eq]
      rintro rfl
      rw [hpath, Text.splitOn_cons_sep] at hempty
      exact hempty List.mem_cons_self
  have hback : Text.trimEndWhile (· == '/') path.toList = path.toList := by
    rcases List.eq_nil_or_concat path.toList with hpath | ⟨s, c, hpath⟩
    · rw [hpath]
      rfl
    · rw [List.concat_eq_append] at hpath
      rw [Text.trimEndWhile, hpath, List.reverse_append, List.reverse_singleton,
        List.singleton_append, List.dropWhile_cons_of_neg, List.reverse_cons, List.reverse_reverse]
      rw [beq_iff_eq]
      rintro rfl
      rw [hpath, Text.splitOn_append_sep] at hempty
      exact hempty (List.mem_append_right _ (by simp [Text.splitOn]))
  rw [exclusionText, hfront, hback]

theorem splitOn_exclusionText (h : "" ∉ wayOf path) :
    (Text.splitOn '/' (exclusionText path isDirectory)).tail.dropLast =
      (directoriesOf path isDirectory).map String.toList := by
  rw [exclusionText_of_names h, List.cons_append, Text.splitOn_cons_sep, List.tail_cons]
  cases isDirectory with
  | false => simp [directoriesOf, List.map_dropLast, map_toList_wayOf]
  | true =>
    simp only [directoriesOf, if_true, map_toList_wayOf]
    rw [Text.splitOn_append_sep]
    exact List.dropLast_concat

/-- **A glob that names a directory excludes what has this directory on its path.** -/
theorem isExcluded_directoryGlob (hname : IsPlain name) (hpath : "" ∉ wayOf path) :
    isExcluded [Glob.ofText (directoryGlob name)] path isDirectory = true ↔
      name ∈ directoriesOf path isDirectory := by
  rw [isExcluded, List.any_cons, List.any_nil, Bool.or_false, matchesAll_directoryGlob hname,
    Text.exists_between_iff hname.slash_not_mem, splitOn_exclusionText hpath,
    List.mem_map_of_injective fun _ _ => String.toList_injective]

/-- What a list of such globs excludes. -/
theorem isExcluded_directoryGlobs {names : List String} (hnames : ∀ name ∈ names, IsPlain name)
    (hpath : "" ∉ wayOf path) :
    isExcluded ((names.map directoryGlob).map Glob.ofText) path isDirectory = true ↔
      ∃ name ∈ names, name ∈ directoriesOf path isDirectory := by
  have heach : ∀ globs : List Glob, isExcluded globs path isDirectory = true ↔
      ∃ glob ∈ globs, isExcluded [glob] path isDirectory = true := by
    intro globs
    simp [isExcluded]
  rw [heach]
  simp only [List.mem_map, exists_exists_and_eq_and]
  exact exists_congr fun name => and_congr_right fun hname =>
    isExcluded_directoryGlob (hnames name hname) hpath

/-- A file in an excluded directory is excluded itself. -/
theorem isKept_directoryGlobs {names : List String} (hnames : ∀ name ∈ names, IsPlain name)
    (hpath : "" ∉ wayOf path) :
    IsKept ((names.map directoryGlob).map Glob.ofText) path ↔
      isExcluded ((names.map directoryGlob).map Glob.ofText) path false = false := by
  constructor
  · intro h
    exact h.file
  · intro hfile
    refine ⟨hfile, fun front rest hfront hrest heq => ?_⟩
    have hway : wayOf (pathOf front) = front :=
      wayOf_pathOf_of_slash_not_mem hfront fun name hname =>
        slash_not_mem_of_mem_wayOf (heq ▸ List.mem_append_left rest hname)
    have hempty : "" ∉ wayOf (pathOf front) := by
      rw [hway]
      exact fun hmem => hpath (heq ▸ List.mem_append_left rest hmem)
    by_contra hexcluded
    rw [Bool.not_eq_false, isExcluded_directoryGlobs hnames hempty] at hexcluded
    obtain ⟨name, hname, hmem⟩ := hexcluded
    -- The directories on the way to an excluded directory, itself among them, are on the way to the file.
    have hdirectory : name ∈ directoriesOf path false := by
      rw [directoriesOf, if_pos rfl, hway] at hmem
      rw [directoriesOf, if_neg (by decide), ← heq, List.dropLast_append_of_ne_nil hrest]
      exact List.mem_append_left _ hmem
    rw [(isExcluded_directoryGlobs hnames hpath).mpr ⟨name, hname, hdirectory⟩] at hfile
    cases hfile

end

namespace Disk

variable {disk : Disk} {root path : String}

theorem LeadsToFile.empty_not_mem (h : disk.LeadsToFile root path) (hdisk : disk.root.WellFormed) :
    "" ∉ wayOf path := by
  obtain ⟨top, bytes, htop, hholds⟩ := h
  intro hmem
  exact (hholds.isEntryName (wellFormed_entry hdisk htop) "" hmem).ne_empty rfl

/-- There are finitely many files below a directory. -/
theorem exists_files (hdisk : disk.root.WellFormed) (root : String) :
    ∃ below : Finset String, ∀ path, path ∈ below ↔ disk.LeadsToFile root path := by
  obtain ⟨walked, -, hmem, -⟩ := exists_walk hdisk root []
  refine ⟨walked.toFinset, fun path => ?_⟩
  have hkept : IsKept [] path := ⟨rfl, fun _ _ _ _ _ => rfl⟩
  rw [List.mem_toFinset, hmem]
  exact and_iff_left hkept

/-- If the limit is not reached, all the kept files are given. -/
theorem files_eq_sort (hdisk : disk.root.WellFormed) {exclude : List String} {kept : Finset String}
    (hkept : ∀ path, path ∈ kept ↔
      disk.LeadsToFile root path ∧ IsKept (exclude.map Glob.ofText) path)
    {limit : Int} (hlimit : (kept.card : Int) ≤ limit) :
    disk.files root exclude limit = kept.sort (· ≤ ·) := by
  obtain ⟨walked, hnodup, hmem, hfiles⟩ := exists_walk hdisk root exclude
  have hsame : walked.toFinset = kept := by
    ext path
    rw [List.mem_toFinset, hmem, hkept]
  have hlength : walked.length ≤ (max limit 1).toNat := by
    rw [← List.toFinset_card_of_nodup hnodup, hsame]
    omega
  have hperm : (sortedTexts walked).Perm (kept.sort (· ≤ ·)) := by
    refine (perm_sortedTexts walked).trans ?_
    rw [List.perm_ext_iff_of_nodup hnodup (kept.sort_nodup _)]
    intro path
    rw [Finset.mem_sort, ← hsame, List.mem_toFinset]
  rw [hfiles, List.take_of_length_le hlength]
  exact hperm.eq_of_pairwise (fun a b _ _ => String.le_antisymm) (pairwise_sortedTexts walked)
    (kept.pairwise_sort _)

/-- **Globs that name directories mean directories.** Such a glob excludes exactly what has a directory with
this name on its path. So if nothing but such globs excludes files and the limit is not reached, the files
of a workspace are all the files that are not excluded by their own paths, in order. -/
theorem files_directoryGlobs (hdisk : disk.root.WellFormed) (root : String) {names : List String}
    (hnames : ∀ name ∈ names, IsPlain name) :
    (∀ name ∈ names, ∀ path isDirectory, "" ∉ wayOf path →
      (isExcluded [Glob.ofText (directoryGlob name)] path isDirectory = true ↔
        name ∈ directoriesOf path isDirectory)) ∧
      ∃ below kept : Finset String, (∀ path, path ∈ below ↔ disk.LeadsToFile root path) ∧
        kept = {path ∈ below |
          isExcluded ((names.map directoryGlob).map Glob.ofText) path false = false} ∧
        ∀ limit : Int, (kept.card : Int) ≤ limit →
          disk.files root (names.map directoryGlob) limit = kept.sort (· ≤ ·) := by
  constructor
  · intro name hname path isDirectory hpath
    exact isExcluded_directoryGlob (hnames name hname) hpath
  · obtain ⟨below, hbelow⟩ := exists_files hdisk root
    refine ⟨below, _, hbelow, rfl, fun limit hlimit => files_eq_sort hdisk (fun path => ?_) hlimit⟩
    rw [Finset.mem_filter, hbelow]
    exact and_congr_right fun hleads =>
      (isKept_directoryGlobs hnames (hleads.empty_not_mem hdisk)).symm

/-- A directory is told by its whole name, and no file in it is given. -/
theorem files_directoryGlobs_listing :
    listing.root.WellFormed ∧ (∀ name ∈ ["lib"], IsPlain name) ∧
      isExcluded [Glob.ofText (directoryGlob "lib")] "src/lib/vendor.js" false = true ∧
      isExcluded [Glob.ofText (directoryGlob "lib")] "src/library.ts" false = false ∧
      ∃ kept : Finset String, "b.ts" ∈ kept ∧ "lib/c.ts" ∉ kept ∧
        ∀ limit : Int, (kept.card : Int) ≤ limit →
          listing.files "/" ["**/lib/**"] limit = kept.sort (· ≤ ·) := by
  have hplain : ∀ name ∈ ["lib"], IsPlain name := by
    intro name hname c hc
    have hchars : c ∈ ['l', 'i', 'b'] := by
      rw [List.mem_singleton.mp hname] at hc
      exact hc
    simp only [List.mem_cons, List.not_mem_nil, or_false] at hchars
    rcases hchars with rfl | rfl | rfl <;> decide
  have hfile : listing.LeadsToFile "/" "b.ts" := by
    refine ⟨listing.root, .empty, rfl, ?_⟩
    have hway : wayOf "b.ts" = ["b.ts"] := by decide +kernel
    rw [hway]
    exact .child (by decide) (by rfl) (.here _)
  obtain ⟨hglob, below, kept, hbelow, rfl, hfiles⟩ :=
    files_directoryGlobs wellFormed_listing "/" hplain
  have hvendor := hglob "lib" (by decide) "src/lib/vendor.js" false (by decide +kernel)
  have hlibrary := hglob "lib" (by decide) "src/library.ts" false (by decide +kernel)
  refine ⟨wellFormed_listing, hplain, hvendor.mpr (by decide +kernel), ?_, _, ?_, ?_, hfiles⟩
  · rw [← Bool.not_eq_true, hlibrary]
    decide +kernel
  · exact Finset.mem_filter.mpr ⟨(hbelow _).mpr hfile, by decide +kernel⟩
  · intro hmem
    exact absurd (Finset.mem_filter.mp hmem).2 (by decide +kernel)

end Disk

end Vicinity
