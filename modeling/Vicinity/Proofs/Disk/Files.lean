import Vicinity.Proofs.Disk.Trees

/-!
# The walk over a workspace

Every path that the walk over a well-formed tree gives is the way to a file, its names written with
slashes between them. An entry's name is not empty and holds no slash, so the way can be read off the
path again.

## What is proved

* `mem_walk_directory`: what the walk over a directory gives.
* `exists_way_of_mem_walk`, `exists_way_of_mem_files`: the way to each file, and the file at its end.
* `wayOf_pathOf`, `pathOf_wayOf`: the way is what is left of its path when that is cut at the slashes.
-/

namespace Vicinity

/-- The path that a way of names has as seen from where it starts. -/
def pathOf (way : List String) : String := "/".intercalate way

/-- The names between the slashes of a path. -/
def wayOf (path : String) : List String := (Text.splitOn '/' path.toList).map String.ofList

theorem toList_pathOf (way : List String) :
    (pathOf way).toList = Text.joinWith ['/'] (way.map String.toList) := by
  rw [pathOf, String.toList_intercalate]
  rfl

theorem map_toList_wayOf (path : String) :
    (wayOf path).map String.toList = Text.splitOn '/' path.toList := by
  rw [wayOf, List.map_map]
  exact List.map_id'' (fun part => String.toList_ofList) _

/-- Joining the names between the slashes of a path gives the path back. -/
theorem pathOf_wayOf (path : String) : pathOf (wayOf path) = path := by
  apply String.toList_inj.mp
  rw [toList_pathOf, map_toList_wayOf, Text.joinWith_splitOn]

theorem wayOf_ne_nil (path : String) : wayOf path ≠ [] := by
  simpa [wayOf] using Text.splitOn_ne_nil '/' path.toList

theorem slash_not_mem_of_mem_wayOf {path name : String} (h : name ∈ wayOf path) :
    '/' ∉ name.toList := by
  obtain ⟨part, hpart, rfl⟩ := List.mem_map.mp h
  rw [String.toList_ofList]
  exact Text.not_mem_of_mem_splitOn hpart

theorem wayOf_pathOf_of_slash_not_mem {way : List String} (hne : way ≠ [])
    (hslash : ∀ name ∈ way, '/' ∉ name.toList) : wayOf (pathOf way) = way := by
  have hparts : ∀ part ∈ way.map String.toList, '/' ∉ part := by
    intro part hpart
    obtain ⟨name, hname, rfl⟩ := List.mem_map.mp hpart
    exact hslash name hname
  rw [wayOf, toList_pathOf, Text.splitOn_joinWith (by simpa using hne) hparts, List.map_map]
  exact List.map_id'' (fun name => String.ofList_toList) way

/-- Cutting the path of a way at its slashes gives the way back. -/
theorem wayOf_pathOf {way : List String} (hne : way ≠ []) (hway : ∀ name ∈ way, IsEntryName name) :
    wayOf (pathOf way) = way :=
  wayOf_pathOf_of_slash_not_mem hne fun name hname => (hway name hname).slash_not_mem

/-- The path of a way is a relative one, and its names are those of the way. -/
theorem parse_pathOf {way : List String} (hway : ∀ name ∈ way, IsEntryName name) :
    Path.parse (pathOf way) = ⟨0, way⟩ := by
  have hnames : ∀ name ∈ way, name ≠ "" ∧ '/' ∉ name.toList ∧ name ≠ "." := fun name hname =>
    ⟨(hway name hname).ne_empty, (hway name hname).slash_not_mem, (hway name hname).ne_dot⟩
  by_cases hne : way = []
  · subst hne
    decide +kernel
  · have hread : (Path.mk 0 way).Read := ⟨Nat.zero_le 2, hnames⟩
    have hrender : (Path.mk 0 way).render = pathOf way := by
      rw [Path.render, if_neg (by simp [hne])]
      simp [pathOf]
    rw [← hrender, Path.parse_render hread]

theorem inDirectory_pathOf {name : String} (hname : name ≠ "") {way : List String} (hne : way ≠ [])
    (at_ : String) :
    inDirectory (inDirectory at_ name) (pathOf way) = inDirectory at_ (pathOf (name :: way)) := by
  obtain ⟨first, more, rfl⟩ := List.exists_cons_of_ne_nil hne
  have hcons : pathOf (name :: first :: more) = name ++ "/" ++ pathOf (first :: more) :=
    String.intercalate_cons_cons
  unfold inDirectory
  by_cases hat : at_.isEmpty
  · simp [hat, hname, hcons]
  · simp [hat, hcons, String.append_assoc]

/-! ### What the walk gives -/

theorem mem_joinByName {blocks : List (String × List String)} {text : String} :
    text ∈ joinByName blocks ↔ ∃ block ∈ blocks, text ∈ block.2 := by
  simp only [joinByName, List.mem_flatMap, List.mem_mergeSort]

namespace DiskEntry

theorem mem_fileNames {children : List (String × DiskEntry)} {name : String} :
    name ∈ fileNames children ↔ ∃ bytes, (name, .file bytes) ∈ children := by
  induction children with
  | nil => simp [fileNames]
  | cons child more ih =>
    obtain ⟨other, _ | _⟩ := child
    · simp only [fileNames, List.mem_cons, ih, Prod.mk.injEq, DiskEntry.file.injEq]
      constructor
      · rintro (rfl | ⟨bytes, hmem⟩)
        · exact ⟨_, .inl ⟨rfl, rfl⟩⟩
        · exact ⟨bytes, .inr hmem⟩
      · rintro ⟨bytes, ⟨rfl, -⟩ | hmem⟩
        · exact .inl rfl
        · exact .inr ⟨bytes, hmem⟩
    · simp [fileNames, ih]

theorem mem_walkDirectories {globs : List Glob} {at_ : String} {children : List (String × DiskEntry)}
    {block : String × List String} :
    block ∈ walkDirectories globs at_ children ↔
      ∃ name below, (name, .directory below) ∈ children ∧
        isExcluded globs (inDirectory at_ name) true = false ∧
        block = (name, walk globs (inDirectory at_ name) (.directory below)) := by
  induction children with
  | nil => simp [walkDirectories]
  | cons child more ih =>
    obtain ⟨other, _ | below⟩ := child
    · simp [walkDirectories, ih]
    · unfold walkDirectories
      dsimp only
      split
      · rename_i hexcluded
        rw [ih]
        constructor
        · rintro ⟨name, below, hmem, hrest⟩
          exact ⟨name, below, List.mem_cons_of_mem _ hmem, hrest⟩
        · rintro ⟨name, below, hmem, hkept, rfl⟩
          rcases List.mem_cons.mp hmem with heq | hmem
          · cases heq
            rw [hexcluded] at hkept
            cases hkept
          · exact ⟨name, below, hmem, hkept, rfl⟩
      · rename_i hkept
        rw [List.mem_cons, ih]
        constructor
        · rintro (rfl | ⟨name, below, hmem, hrest⟩)
          · exact ⟨other, below, List.mem_cons_self, by simpa using hkept, rfl⟩
          · exact ⟨name, below, List.mem_cons_of_mem _ hmem, hrest⟩
        · rintro ⟨name, below, hmem, hkept, rfl⟩
          rcases List.mem_cons.mp hmem with heq | hmem
          · cases heq
            exact .inl rfl
          · exact .inr ⟨name, below, hmem, hkept, rfl⟩

/-- The walk over a directory gives the paths of its own files and those of the directories in it,
both as far as they are not excluded. -/
theorem mem_walk_directory {globs : List Glob} {at_ : String} {children : List (String × DiskEntry)}
    {path : String} :
    path ∈ walk globs at_ (.directory children) ↔
      (∃ name bytes, (name, .file bytes) ∈ children ∧ path = inDirectory at_ name ∧
        isExcluded globs path false = false) ∨
      ∃ name below, (name, .directory below) ∈ children ∧
        isExcluded globs (inDirectory at_ name) true = false ∧
        path ∈ walk globs (inDirectory at_ name) (.directory below) := by
  rw [walk, List.mem_append, List.mem_filter, mem_joinByName]
  refine or_congr ⟨?_, ?_⟩ ⟨?_, ?_⟩
  · rintro ⟨hmem, hkept⟩
    obtain ⟨name, hname, rfl⟩ := List.mem_map.mp hmem
    obtain ⟨bytes, hfile⟩ := mem_fileNames.mp (mem_sortedTexts.mp hname)
    exact ⟨name, bytes, hfile, rfl, by simpa using hkept⟩
  · rintro ⟨name, bytes, hfile, rfl, hkept⟩
    refine ⟨List.mem_map.mpr ⟨name, mem_sortedTexts.mpr (mem_fileNames.mpr ⟨bytes, hfile⟩), rfl⟩, ?_⟩
    simpa using hkept
  · rintro ⟨block, hblock, hmem⟩
    obtain ⟨name, below, hdirectory, hkept, rfl⟩ := mem_walkDirectories.mp hblock
    exact ⟨name, below, hdirectory, hkept, hmem⟩
  · rintro ⟨name, below, hdirectory, hkept, hmem⟩
    exact ⟨_, mem_walkDirectories.mpr ⟨name, below, hdirectory, hkept, rfl⟩, hmem⟩

/-- A path that the walk gives is the way to a file. -/
theorem exists_way_of_mem_walk {entry : DiskEntry} (h : entry.WellFormed) {globs : List Glob}
    {at_ path : String} (hmem : path ∈ walk globs at_ entry) :
    ∃ way bytes, way ≠ [] ∧ (∀ name ∈ way, IsEntryName name) ∧ entry.Holds way (.file bytes) ∧
      path = inDirectory at_ (pathOf way) := by
  induction h generalizing at_ with
  | file bytes => simp [walk] at hmem
  | @directory children nodup names entries ih =>
    rcases mem_walk_directory.mp hmem with
      ⟨name, bytes, hchild, rfl, -⟩ | ⟨name, below, hchild, -, hmem⟩
    · have hname : IsEntryName name := names _ hchild
      refine ⟨[name], bytes, List.cons_ne_nil _ _, by simpa using hname, ?_, rfl⟩
      exact .child hname.ne_dots (lookup_of_mem nodup hchild) (.here _)
    · have hname : IsEntryName name := names _ hchild
      obtain ⟨way, bytes, hne, hway, hholds, rfl⟩ := ih _ hchild hmem
      refine ⟨name :: way, bytes, List.cons_ne_nil _ _, ?_, ?_,
        inDirectory_pathOf hname.ne_empty hne at_⟩
      · intro other hother
        rcases List.mem_cons.mp hother with rfl | hother
        · exact hname
        · exact hway other hother
      · exact .child hname.ne_dots (lookup_of_mem nodup hchild) hholds

end DiskEntry

/-- **A file of the workspace is the end of a way from its root**, and its path is made of the names
on this way. -/
theorem Disk.exists_way_of_mem_files {disk : Disk} (h : disk.root.WellFormed) {root : String}
    {exclude : List String} {limit : Int} {path : String}
    (hmem : path ∈ disk.files root exclude limit) :
    ∃ top way bytes, disk.entry root = .ok top ∧ way ≠ [] ∧ (∀ name ∈ way, IsEntryName name) ∧
      top.Holds way (.file bytes) ∧ path = pathOf way := by
  unfold Disk.files at hmem
  cases htop : disk.entry root with
  | error e => simp [htop] at hmem
  | ok top =>
    rw [htop] at hmem
    have hwalk := List.mem_of_mem_take (mem_sortedTexts.mp hmem)
    obtain ⟨way, bytes, hne, hway, hholds, rfl⟩ :=
      DiskEntry.exists_way_of_mem_walk (Disk.wellFormed_entry h htop) hwalk
    exact ⟨top, way, bytes, rfl, hne, hway, hholds, rfl⟩

end Vicinity
