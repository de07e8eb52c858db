import Mathlib.Data.Finset.Card
import Mathlib.Data.String.Basic
import Vicinity.Proofs.Disk.Relisting

/-!
# Which files are enumerated

The files of a workspace are the paths that lead from its root to a file and are kept: neither the file is
excluded, nor a directory on the way to it. The walk comes to each of them once. If there are more of them
than the limit, as many as the limit are given, and with a higher limit these and some more.

## What is proved

* `mem_walk`, `nodup_walk`: the walk over a tree gives the ways to its kept files, each once.
* `Disk.exists_walk`: so the files of a workspace are the beginning of a list of the kept ones, in order.
* `Disk.files_enumerate_kept`: how many they are, which, and that the order in which directories are
  listed does not matter.
-/

namespace Vicinity

theorem inDirectory_empty (name : String) : inDirectory "" name = name := rfl

theorem inDirectory_injective (at_ : String) : Function.Injective (inDirectory at_) := by
  intro name other h
  unfold inDirectory at h
  split at h
  · exact h
  · exact (String.append_right_inj _).mp h

/-- A file's path with none of its directories excluded, nor itself. -/
structure IsKept (globs : List Glob) (path : String) : Prop where
  file : isExcluded globs path false = false
  directories : ∀ front rest, front ≠ [] → rest ≠ [] → front ++ rest = wayOf path →
    isExcluded globs (pathOf front) true = false

/-- A path leads from a directory down to a file. -/
def Disk.LeadsToFile (disk : Disk) (root path : String) : Prop :=
  ∃ top bytes, disk.entry root = .ok top ∧ top.Holds (wayOf path) (.file bytes)

namespace DiskEntry

section

variable {entry found : DiskEntry} {children : List (String × DiskEntry)} {globs : List Glob}
  {at_ name path : String} {way : List String}

/-- The names on a way through a well-formed tree are names that an entry can have. -/
theorem Holds.isEntryName (h : entry.Holds way found) (hentry : entry.WellFormed) :
    ∀ name ∈ way, IsEntryName name := by
  induction h with
  | here entry => simp
  | @child children name next found way _ hlook h ih =>
    intro other hother
    rcases List.mem_cons.mp hother with rfl | hother
    · cases hentry with
      | directory nodup names entries => exact names _ (mem_of_lookup hlook)
    · exact ih (hentry.lookup hlook) other hother

/-- A way below an entry with the path `at_` leads to a file, and neither the file nor a directory on the
way to it is excluded. -/
structure Keeps (globs : List Glob) (at_ : String) (entry : DiskEntry) (way : List String) : Prop where
  holds : ∃ bytes, entry.Holds way (.file bytes)
  file : isExcluded globs (inDirectory at_ (pathOf way)) false = false
  directories : ∀ front rest, front ≠ [] → rest ≠ [] → front ++ rest = way →
    isExcluded globs (inDirectory at_ (pathOf front)) true = false

theorem keeps_singleton :
    Keeps globs at_ (.directory children) [name] ↔
      name ≠ ".." ∧ (∃ bytes, children.lookup name = some (.file bytes)) ∧
        isExcluded globs (inDirectory at_ name) false = false := by
  constructor
  · rintro ⟨⟨bytes, hholds⟩, hfile, -⟩
    cases hholds with
    | child hname hlook h =>
      cases h
      exact ⟨hname, ⟨bytes, hlook⟩, hfile⟩
  · rintro ⟨hname, ⟨bytes, hlook⟩, hfile⟩
    refine ⟨⟨bytes, .child hname hlook (.here _)⟩, hfile, fun front rest hfront hrest heq => ?_⟩
    rcases List.append_eq_singleton_iff.mp heq with ⟨rfl, -⟩ | ⟨-, rfl⟩
    · exact absurd rfl hfront
    · exact absurd rfl hrest

theorem keeps_cons (hname : name ≠ "") (hway : way ≠ []) :
    Keeps globs at_ (.directory children) (name :: way) ↔
      name ≠ ".." ∧ isExcluded globs (inDirectory at_ name) true = false ∧
        ∃ below, children.lookup name = some (.directory below) ∧
          Keeps globs (inDirectory at_ name) (.directory below) way := by
  constructor
  · rintro ⟨⟨bytes, hholds⟩, hfile, hdirectories⟩
    cases hholds with
    | @child _ _ next _ _ hdots hlook h =>
      refine ⟨hdots, hdirectories [name] way (by simp) hway rfl, ?_⟩
      cases next with
      | file => cases h; exact absurd rfl hway
      | directory below =>
        refine ⟨below, hlook, ⟨bytes, h⟩, ?_, fun front rest hfront hrest heq => ?_⟩
        · rwa [inDirectory_pathOf hname hway]
        · rw [inDirectory_pathOf hname hfront]
          exact hdirectories (name :: front) rest (by simp) hrest (by rw [← heq]; rfl)
  · rintro ⟨hdots, hkept, below, hlook, ⟨bytes, hholds⟩, hfile, hdirectories⟩
    refine ⟨⟨bytes, .child hdots hlook hholds⟩, ?_, fun front rest hfront hrest heq => ?_⟩
    · rwa [inDirectory_pathOf hname hway] at hfile
    · obtain ⟨first, front, rfl⟩ := List.exists_cons_of_ne_nil hfront
      obtain ⟨rfl, hway'⟩ := List.cons_eq_cons.mp heq
      by_cases hmore : front = []
      · subst hmore
        exact hkept
      · rw [← inDirectory_pathOf hname hmore]
        exact hdirectories front rest hmore hrest hway'

/-- **The walk over a tree gives the ways to its kept files.** -/
theorem mem_walk (h : entry.WellFormed) :
    path ∈ walk globs at_ entry ↔
      ∃ way, way ≠ [] ∧ Keeps globs at_ entry way ∧ path = inDirectory at_ (pathOf way) := by
  induction h generalizing at_ with
  | file bytes =>
    constructor
    · intro hmem
      simp [walk] at hmem
    · rintro ⟨way, hne, ⟨⟨_, hholds⟩, -, -⟩, -⟩
      cases hholds
      exact absurd rfl hne
  | @directory children nodup names entries ih =>
    rw [mem_walk_directory]
    constructor
    · rintro (⟨name, bytes, hchild, rfl, hkept⟩ | ⟨name, below, hchild, hkept, hmem⟩)
      · have hlook := lookup_of_mem nodup hchild
        exact ⟨[name], by simp,
          keeps_singleton.mpr ⟨(names _ hchild).ne_dots, ⟨bytes, hlook⟩, hkept⟩, rfl⟩
      · have hname : IsEntryName name := names _ hchild
        obtain ⟨way, hway, hkeeps, rfl⟩ := (ih _ hchild).mp hmem
        exact ⟨name :: way, by simp, (keeps_cons hname.ne_empty hway).mpr
          ⟨hname.ne_dots, hkept, below, lookup_of_mem nodup hchild, hkeeps⟩,
          inDirectory_pathOf hname.ne_empty hway at_⟩
    · rintro ⟨way, hne, hkeeps, rfl⟩
      obtain ⟨name, way, rfl⟩ := List.exists_cons_of_ne_nil hne
      obtain ⟨bytes, hholds⟩ := hkeeps.holds
      have hname : IsEntryName name :=
        hholds.isEntryName (.directory nodup names entries) name List.mem_cons_self
      by_cases hway : way = []
      · subst hway
        obtain ⟨-, ⟨bytes, hlook⟩, hkept⟩ := keeps_singleton.mp hkeeps
        exact .inl ⟨name, bytes, mem_of_lookup hlook, rfl, hkept⟩
      · obtain ⟨-, hkept, below, hlook, hbelow⟩ := (keeps_cons hname.ne_empty hway).mp hkeeps
        have hchild := mem_of_lookup hlook
        exact .inr ⟨name, below, hchild, hkept, (ih _ hchild).mpr
          ⟨way, hway, hbelow, (inDirectory_pathOf hname.ne_empty hway at_).symm⟩⟩

/-- Different ways have different paths. -/
theorem pathOf_inj {way other : List String} (hway : way ≠ []) (hother : other ≠ [])
    (hnames : ∀ name ∈ way, IsEntryName name) (hothers : ∀ name ∈ other, IsEntryName name)
    (h : inDirectory at_ (pathOf way) = inDirectory at_ (pathOf other)) : way = other := by
  rw [← wayOf_pathOf hway hnames, inDirectory_injective at_ h, wayOf_pathOf hother hothers]

/-- What the walk gives in a directory begins with the name of the directory. -/
theorem exists_way_of_mem_walkDirectories (h : WellFormed (.directory children))
    {block : String × List String} (hblock : block ∈ walkDirectories globs at_ children)
    (hpath : path ∈ block.2) :
    ∃ way, way ≠ [] ∧ (∀ name ∈ block.1 :: way, IsEntryName name) ∧
      path = inDirectory at_ (pathOf (block.1 :: way)) := by
  obtain ⟨name, below, hchild, -, rfl⟩ := mem_walkDirectories.mp hblock
  cases h with
  | directory _ names entries =>
    have hname : IsEntryName name := names _ hchild
    obtain ⟨way, bytes, hne, hnames, -, rfl⟩ := exists_way_of_mem_walk (entries _ hchild) hpath
    exact ⟨way, hne, List.forall_mem_cons.mpr ⟨hname, hnames⟩,
      inDirectory_pathOf hname.ne_empty hne at_⟩

/-- The walk gives nothing in two directories. -/
theorem disjoint_walkDirectories (h : WellFormed (.directory children)) :
    (walkDirectories globs at_ children).Pairwise fun block other => block.2.Disjoint other.2 := by
  have hblocks : ((walkDirectories globs at_ children).map (·.1)).Nodup := by
    cases h with
    | directory nodup => exact nodup.sublist (names_walkDirectories_sublist globs at_ children)
  refine (List.pairwise_map.mp hblocks).imp_of_mem fun {block other} hblock hother hne => ?_
  intro path hpath hpath'
  obtain ⟨way, -, hnames, rfl⟩ := exists_way_of_mem_walkDirectories h hblock hpath
  obtain ⟨way', -, hnames', heq⟩ := exists_way_of_mem_walkDirectories h hother hpath'
  exact hne (List.cons_eq_cons.mp (pathOf_inj (by simp) (by simp) hnames hnames' heq)).1

/-- The walk gives none of a directory's own files in the directories below it. -/
theorem disjoint_fileNames (h : WellFormed (.directory children)) {name : String}
    (hname : name ∈ fileNames children) :
    inDirectory at_ name ∉ joinByName (walkDirectories globs at_ children) := by
  intro hmem
  obtain ⟨block, hblock, hpath⟩ := mem_joinByName.mp hmem
  obtain ⟨way, hne, hnames, heq⟩ := exists_way_of_mem_walkDirectories h hblock hpath
  obtain ⟨bytes, hchild⟩ := mem_fileNames.mp hname
  have hsingle : ∀ other ∈ [name], IsEntryName other := by
    cases h with
    | directory _ names => simpa using names _ hchild
  have hways : [name] = block.1 :: way := pathOf_inj (by simp) (by simp) hsingle hnames heq
  exact hne (List.cons_eq_cons.mp hways).2.symm

/-- **The walk comes to each file once.** -/
theorem nodup_walk (h : entry.WellFormed) (globs : List Glob) (at_ : String) :
    (walk globs at_ entry).Nodup := by
  induction h generalizing at_ with
  | file bytes => simp [walk]
  | @directory children nodup names entries ih =>
    have hhere : WellFormed (.directory children) := .directory nodup names entries
    rw [walk, List.nodup_append]
    refine ⟨List.Nodup.filter _ ?_, ?_, ?_⟩
    · have hown := (perm_sortedTexts _).nodup_iff.mpr (nodup_fileNames nodup)
      exact hown.map (inDirectory_injective at_)
    · rw [joinByName, ((List.mergeSort_perm _ _).flatMap_right _).nodup_iff, List.nodup_flatMap]
      refine ⟨fun block hblock => ?_, disjoint_walkDirectories hhere⟩
      obtain ⟨name, below, hchild, -, rfl⟩ := mem_walkDirectories.mp hblock
      exact ih _ hchild _
    · rintro path hpath other hother rfl
      obtain ⟨name, hname, rfl⟩ := List.mem_map.mp (List.mem_filter.mp hpath).1
      exact disjoint_fileNames hhere (mem_sortedTexts.mp hname) hother

end

end DiskEntry

namespace Disk

variable {disk : Disk} {root : String} {exclude : List String}

/-- **The files of a workspace are the beginning of a list of the kept ones**, in order. -/
theorem exists_walk (h : disk.root.WellFormed) (root : String) (exclude : List String) :
    ∃ walked : List String, walked.Nodup ∧
      (∀ path, path ∈ walked ↔
        disk.LeadsToFile root path ∧ IsKept (exclude.map Glob.ofText) path) ∧
      ∀ limit, disk.files root exclude limit = sortedTexts (walked.take (max limit 1).toNat) := by
  cases htop : disk.entry root with
  | error e =>
    refine ⟨[], List.nodup_nil, fun path => ?_, fun limit => ?_⟩
    · simp [LeadsToFile, htop]
    · simp [files, htop, sortedTexts]
  | ok top =>
    have hwellFormed := wellFormed_entry h htop
    refine ⟨top.walk (exclude.map Glob.ofText) "", DiskEntry.nodup_walk hwellFormed _ _, ?_, ?_⟩
    · intro path
      rw [DiskEntry.mem_walk hwellFormed]
      constructor
      · rintro ⟨way, hne, ⟨⟨bytes, hholds⟩, hfile, hdirectories⟩, rfl⟩
        have hway : wayOf (pathOf way) = way := wayOf_pathOf hne (hholds.isEntryName hwellFormed)
        rw [inDirectory_empty] at hfile ⊢
        refine ⟨⟨top, bytes, htop, hway.symm ▸ hholds⟩, hfile, ?_⟩
        rw [hway]
        exact hdirectories
      · rintro ⟨⟨_, bytes, heq, hholds⟩, hfile, hdirectories⟩
        obtain rfl := Except.ok.inj (htop.symm.trans heq)
        refine ⟨wayOf path, wayOf_ne_nil path, ⟨⟨bytes, hholds⟩, ?_, hdirectories⟩, ?_⟩
        · rwa [pathOf_wayOf]
        · rw [pathOf_wayOf, inDirectory_empty]
    · intro limit
      rw [files, htop]

/-- **The files of a workspace are enumerated.** They are in order and each once. All of them are kept, and
they are as many as there are kept files, or as the limit allows. With a higher limit no file is missing,
and in whatever order directories list their entries, the files are the same. -/
theorem files_enumerate_kept (h : disk.root.WellFormed) (root : String) (exclude : List String)
    {limit : Int} (hlimit : 1 ≤ limit) :
    (disk.files root exclude limit).Pairwise (· < ·) ∧
      (∃ kept : Finset String,
        (∀ path, path ∈ kept ↔
          disk.LeadsToFile root path ∧ IsKept (exclude.map Glob.ofText) path) ∧
        ((disk.files root exclude limit).length : Int) = min limit kept.card ∧
        ∀ path ∈ disk.files root exclude limit, path ∈ kept) ∧
      (∀ higher, limit ≤ higher →
        disk.files root exclude limit ⊆ disk.files root exclude higher) ∧
      ∀ other : Disk, disk.workingDirectory = other.workingDirectory →
        disk.root.Relisted other.root →
        other.files root exclude limit = disk.files root exclude limit := by
  obtain ⟨walked, hnodup, hmem, hfiles⟩ := exists_walk h root exclude
  have htaken : ∀ {path : String} {limit : Int}, path ∈ disk.files root exclude limit ↔
      path ∈ walked.take (max limit 1).toNat := by
    intro path limit
    rw [hfiles, mem_sortedTexts]
  refine ⟨?_, ⟨walked.toFinset, ?_, ?_, ?_⟩, ?_, ?_⟩
  · have honce : (disk.files root exclude limit).Nodup := by
      rw [hfiles, (perm_sortedTexts _).nodup_iff]
      exact hnodup.sublist (List.take_sublist _ _)
    have hordered : (disk.files root exclude limit).Pairwise (· ≤ ·) := by
      rw [hfiles]
      exact pairwise_sortedTexts _
    exact (hordered.and honce).imp fun hboth => lt_of_le_of_ne hboth.1 hboth.2
  · intro path
    rw [List.mem_toFinset, hmem]
  · rw [hfiles, (perm_sortedTexts _).length_eq, List.length_take, List.toFinset_card_of_nodup hnodup]
    omega
  · intro path hpath
    exact List.mem_toFinset.mpr (List.mem_of_mem_take (htaken.mp hpath))
  · intro higher hle path hpath
    have hsubset : walked.take (max limit 1).toNat ⊆ walked.take (max higher 1).toNat :=
      List.take_subset_take_left walked (by omega)
    exact htaken.mpr (hsubset (htaken.mp hpath))
  · intro other hdirectory hrelisted
    exact (files_relisted h hdirectory hrelisted root exclude limit).symm

/-- A workspace with a file at its root and two directories. -/
def listing : Disk :=
  { root := .directory [("b.ts", .file .empty), ("lib", .directory [("c.ts", .file .empty)]),
      ("a", .directory [("d.ts", .file .empty)])] }

/-- The same workspace with one directory listed first. -/
def relisting : Disk :=
  { root := .directory [("lib", .directory [("c.ts", .file .empty)]), ("b.ts", .file .empty),
      ("a", .directory [("d.ts", .file .empty)])] }

theorem wellFormed_listing : listing.root.WellFormed := by
  have hnames : ∀ name ∈ ["b.ts", "lib", "c.ts", "a", "d.ts"], IsEntryName name := by
    intro name hname
    refine ⟨?_, ?_, ?_, ?_⟩ <;> revert name <;> decide
  refine .directory (by decide) (by simp [hnames]) ?_
  simp only [List.forall_mem_cons]
  refine ⟨.file _, .directory (by decide) ?_ ?_, .directory (by decide) ?_ ?_, by simp⟩
  all_goals simp [hnames, DiskEntry.WellFormed.file]

/-- Of the two kept files the one at the root is given, in whatever order the root is listed. -/
theorem files_enumerate_kept_relisting :
    listing.root.WellFormed ∧ (1 : Int) ≤ 1 ∧ listing.files "/" ["**/lib/**"] 1 = ["b.ts"] ∧
      relisting.files "/" ["**/lib/**"] 1 = ["b.ts"] ∧
      "b.ts" ∈ listing.files "/" ["**/lib/**"] 2 := by
  have hrelisted : listing.root.Relisted relisting.root :=
    wellFormed_listing.relisted_of_perm (.swap _ _ _)
  have hfiles : listing.files "/" ["**/lib/**"] 1 = ["b.ts"] := by decide +kernel
  obtain ⟨-, -, hhigher, hsame⟩ :=
    files_enumerate_kept wellFormed_listing "/" ["**/lib/**"] (Int.le_refl 1)
  exact ⟨wellFormed_listing, Int.le_refl 1, hfiles, (hsame relisting rfl hrelisted).trans hfiles,
    hhigher 2 (by decide) (hfiles ▸ List.mem_singleton_self _)⟩

end Disk

end Vicinity
