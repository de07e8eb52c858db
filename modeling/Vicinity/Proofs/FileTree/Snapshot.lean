import Vicinity.Proofs.FileTree.Inserting
import Mathlib.Data.Finset.Card
import Mathlib.Order.Bounds.Basic

/-!
# What a snapshot shows

The snapshot of a workspace has a node for each directory and each file on the ways to the files that
it keeps, and no other. It keeps the files from the first one on as long as their nodes fit in, and a
file is kept with all its directories or not at all.

## What is proved

* `mem_ways_foldl`, `count_foldl`: the nodes of a tree into which ways have been inserted.
* `foldl_childPath`: the path of a node is its way, read in the root.
* `ofDisk_shows`: which files are kept, which nodes there are, and what each of them says.
-/

namespace Vicinity

/-- The nonempty beginnings of ways. -/
def beginnings (ways : List (List String)) : Finset (List String) :=
  (ways.flatMap List.inits).toFinset.erase []

theorem mem_beginnings {ways : List (List String)} {way : List String} :
    way ∈ beginnings ways ↔ way ≠ [] ∧ ∃ other ∈ ways, way <+: other := by
  simp [beginnings, List.mem_flatMap, List.mem_inits]

/-! ### The path of a node -/

theorem render_of_isAbsolute {p : Path} (h : p.isAbsolute) :
    p.render = String.ofList (List.replicate p.slashes '/') ++ pathOf p.segments := by
  have hslashes : p.slashes ≠ 0 := by simpa [Path.isAbsolute] using h
  rw [Path.render, if_neg (by simp [hslashes]), pathOf]

/-- The path of a way with one more name. -/
theorem pathOf_append_singleton {way : List String} (h : way ≠ []) (name : String) :
    pathOf (way ++ [name]) = pathOf way ++ "/" ++ name := by
  rw [pathOf, String.intercalate_append_of_ne_nil h (List.cons_ne_nil _ _),
    String.intercalate_singleton]
  rfl

/-- A written absolute path ends with a slash if it has no names, and only then. -/
theorem endsWith_render {p : Path} (hp : p.Read) (h : p.isAbsolute) :
    p.render.endsWith "/" = true ↔ p.segments = [] := by
  have hslashes : p.slashes ≠ 0 := by simpa [Path.isAbsolute] using h
  have hlast : p.render.endsWith "/" = true ↔ p.render.toList.getLast? = some '/' := by
    rw [String.endsWith, String.Slice.endsWith_string_iff, String.copy_toSlice,
      ← List.singleton_suffix_iff_getLast?_eq_some]
    rfl
  rw [hlast, render_of_isAbsolute h]
  rcases List.eq_nil_or_concat p.segments with hnil | ⟨init, last, hconcat⟩
  · simp [hnil, pathOf, List.getLast?_replicate, hslashes]
  · rw [List.concat_eq_append] at hconcat
    obtain ⟨hempty, hslash, -⟩ := hp.segments last (by simp [hconcat])
    have hnonempty : last.toList ≠ [] := fun heq => hempty (String.toList_inj.mp heq)
    have hchar : last.toList.getLast hnonempty ≠ '/' := fun heq =>
      hslash (heq ▸ List.getLast_mem hnonempty)
    obtain ⟨front, hfront⟩ : ∃ front, pathOf p.segments = front ++ last := by
      by_cases hinit : init = []
      · exact ⟨"", by rw [hconcat, hinit, List.nil_append, String.empty_append]; exact
          String.intercalate_singleton⟩
      · exact ⟨pathOf init ++ "/", by rw [hconcat, pathOf_append_singleton hinit]⟩
    rw [hfront]
    simp [hconcat, List.getLast?_append, List.getLast?_eq_some_getLast hnonempty, hchar]

/-- A name in a directory adds one name to the directory's path. -/
theorem childPath_render {p : Path} (hp : p.Read) (h : p.isAbsolute) (name : String) :
    FileTree.childPath p.render name = (Path.mk p.slashes (p.segments ++ [name])).render := by
  have hslashes : p.slashes ≠ 0 := by simpa [Path.isAbsolute] using h
  have habsolute : (Path.mk p.slashes (p.segments ++ [name])).isAbsolute := h
  have hnonempty : p.render.isEmpty = false := by
    rw [render_of_isAbsolute h]
    simp [hslashes]
  unfold FileTree.childPath
  rw [hnonempty, Bool.false_or, render_of_isAbsolute habsolute]
  split
  · rename_i hends
    have hnil := (endsWith_render hp h).mp hends
    simp [render_of_isAbsolute h, hnil, pathOf]
  · rename_i hends
    have hne : p.segments ≠ [] := fun hnil => hends ((endsWith_render hp h).mpr hnil)
    rw [render_of_isAbsolute h, pathOf_append_singleton hne]
    simp only [String.append_assoc]

/-- The path at the end of a way of names is the way, read in the directory where it starts. -/
theorem foldl_childPath {p : Path} (hp : p.Read) (h : p.isAbsolute) {way : List String}
    (hway : ∀ name ∈ way, IsEntryName name) :
    way.foldl FileTree.childPath p.render = (p ++ Path.parse (pathOf way)).render := by
  have hparse : p ++ Path.parse (pathOf way) = ⟨p.slashes, p.segments ++ way⟩ := by
    rw [parse_pathOf hway]
    rfl
  rw [hparse]
  clear hparse
  induction way generalizing p with
  | nil => rw [List.foldl_nil, List.append_nil]
  | cons name more ih =>
    have hname := hway name List.mem_cons_self
    have hread : (Path.mk p.slashes (p.segments ++ [name])).Read := by
      refine ⟨hp.slashes_le, fun other hother => ?_⟩
      rcases List.mem_append.mp hother with hother | hother
      · exact hp.segments other hother
      · cases List.mem_singleton.mp hother
        exact ⟨hname.ne_empty, hname.slash_not_mem, hname.ne_dot⟩
    rw [List.foldl_cons, childPath_render hp h, ih hread h fun other hother =>
      hway other (List.mem_cons_of_mem _ hother)]
    simp

namespace FileTree

/-! ### Trees made of ways -/

variable {isDirectory : String → Bool} {tree : FileTree} {news : List (List String)}

/-- The nodes of a tree into which ways have been inserted. -/
theorem mem_ways_foldl {way : List String} :
    way ∈ (news.foldl (FileTree.insert isDirectory) tree).ways ↔
      way ∈ tree.ways ∨ way ∈ beginnings news := by
  induction news generalizing tree with
  | nil => simp [mem_beginnings]
  | cons new more ih =>
    rw [List.foldl_cons, ih, mem_ways_insert, mem_beginnings, mem_beginnings]
    simp only [List.mem_cons, or_and_right, exists_or, exists_eq_left, and_or_left, or_assoc]

theorem Grown.foldl (h : tree.Grown isDirectory) :
    (news.foldl (FileTree.insert isDirectory) tree).Grown isDirectory := by
  induction news generalizing tree with
  | nil => exact h
  | cons new more ih => exact ih (h.insert new)

theorem path_foldl : (news.foldl (FileTree.insert isDirectory) tree).path = tree.path := by
  induction news generalizing tree with
  | nil => rfl
  | cons new more ih => rw [List.foldl_cons, ih, insert_path]

/-- **A tree made of ways has a node for each beginning of a way**, and no other. -/
theorem ways_foldl (h : tree.children = []) {way : List String} :
    way ∈ (news.foldl (FileTree.insert isDirectory) tree).ways ↔ way ∈ beginnings news := by
  have hnone : tree.ways = [] := by rw [ways, nodes_eq, h]; rfl
  rw [mem_ways_foldl, hnone]
  simp

theorem count_foldl (h : tree.children = []) :
    (news.foldl (FileTree.insert isDirectory) tree).count = (beginnings news).card := by
  have hnodup : (news.foldl (FileTree.insert isDirectory) tree).ways.Nodup :=
    (grown_of_childless isDirectory h).foldl.nodup_ways
  have hways : (news.foldl (FileTree.insert isDirectory) tree).ways.toFinset = beginnings news := by
    ext way
    rw [List.mem_toFinset, ways_foldl h]
  rw [← length_nodes, ← hways, List.toFinset_card_of_nodup hnodup, ways, List.length_map]

/-! ### Trees that cover files -/

/-- What a well-formed disk has at a beginning of a file's way. -/
theorem isDirectory_of_prefix {disk : Disk} {root : Path} (hroot : root.Read)
    (habsolute : root.isAbsolute) {top : DiskEntry} (htop : disk.entry root.render = .ok top)
    {way rest : List String} {bytes : ByteArray} (hway : ∀ name ∈ way, IsEntryName name)
    (h : top.Holds (way ++ rest) (.file bytes)) :
    disk.isDirectory (root ++ Path.parse (pathOf way)).render = true ↔ rest ≠ [] := by
  obtain ⟨mid, hmid, hfile⟩ := h.of_append
  have hentry : disk.entry (root ++ Path.parse (pathOf way)).render = .ok mid := by
    have hbelow := Disk.entry_below hroot habsolute htop hway hmid
    rw [parse_pathOf hway]
    exact hbelow
  rw [Disk.isDirectory, hentry]
  cases hfile with
  | here => simp
  | child hname hlook hnext => simp

/-- A tree that has grown on a disk and covers some files below a root: it has nodes for the ways to
these files, and no others. -/
structure Covers (disk : Disk) (root : Path) (files : List String) (tree : FileTree) : Prop where
  grown : tree.Grown disk.isDirectory
  path_eq : tree.path = root.render
  mem_ways : ∀ way, way ∈ tree.ways ↔ way ∈ beginnings (files.map wayOf)
  /-- The files lie at the ends of their ways. -/
  holds : ∀ file ∈ files, ∃ top bytes, disk.entry root.render = .ok top ∧
    top.Holds (wayOf file) (.file bytes)
  isEntryName : ∀ file ∈ files, ∀ name ∈ wayOf file, IsEntryName name
  pathOf_wayOf : ∀ file ∈ files, pathOf (wayOf file) = file

/-- A node into which the ways of files of the workspace have been inserted covers these files. -/
theorem covers_foldl {disk : Disk} (hdisk : disk.root.WellFormed) {root : Path} {exclude : List String}
    {limit : Int} {files : List String}
    (hfiles : ∀ file ∈ files, file ∈ disk.files root.render exclude limit)
    (hchildren : tree.children = []) (hpath : tree.path = root.render) :
    ((files.map wayOf).foldl (FileTree.insert disk.isDirectory) tree).Covers disk root files := by
  have hway : ∀ file ∈ files, ∃ top bytes, disk.entry root.render = .ok top ∧
      (∀ name ∈ wayOf file, IsEntryName name) ∧ top.Holds (wayOf file) (.file bytes) ∧
      pathOf (wayOf file) = file := by
    intro file hfile
    obtain ⟨top, way, bytes, htop, hne, hnames, hholds, rfl⟩ :=
      Disk.exists_way_of_mem_files hdisk (hfiles file hfile)
    rw [wayOf_pathOf hne hnames]
    exact ⟨top, bytes, htop, hnames, hholds, rfl⟩
  refine ⟨(grown_of_childless _ hchildren).foldl, path_foldl.trans hpath,
    fun way => ways_foldl hchildren, ?_, ?_, ?_⟩
  · intro file hfile
    obtain ⟨top, bytes, htop, -, hholds, -⟩ := hway file hfile
    exact ⟨top, bytes, htop, hholds⟩
  · intro file hfile
    obtain ⟨-, -, -, hnames, -, -⟩ := hway file hfile
    exact hnames
  · intro file hfile
    obtain ⟨-, -, -, -, -, heq⟩ := hway file hfile
    exact heq

section

variable {disk : Disk} {root : Path} {files : List String} (h : tree.Covers disk root files)
  (hroot : root.Read) (habsolute : root.isAbsolute)

include h

/-- A node lies on the way to a file. -/
theorem Covers.exists_rest {way : List String} {node : FileTree} (hmem : (way, node) ∈ tree.nodes) :
    ∃ file ∈ files, ∃ rest, way ++ rest = wayOf file := by
  have hway := (h.mem_ways way).mp (FileTree.mem_ways.mpr ⟨node, hmem⟩)
  obtain ⟨-, other, hother, rest, hrest⟩ := mem_beginnings.mp hway
  obtain ⟨file, hfile, rfl⟩ := List.mem_map.mp hother
  exact ⟨file, hfile, rest, hrest⟩

theorem Covers.isEntryName_of_append {file : String} (hfile : file ∈ files) {way rest : List String}
    (hrest : way ++ rest = wayOf file) : ∀ name ∈ way, IsEntryName name :=
  fun name hname => h.isEntryName file hfile name (hrest ▸ List.mem_append_left _ hname)

include hroot habsolute

theorem Covers.path_of_mem_nodes {way : List String} {node : FileTree}
    (hmem : (way, node) ∈ tree.nodes) :
    node.path = (root ++ Path.parse (pathOf way)).render := by
  obtain ⟨file, hfile, rest, hrest⟩ := h.exists_rest hmem
  rw [(h.grown.of_mem_nodes hmem).2.2, h.path_eq,
    foldl_childPath hroot habsolute (h.isEntryName_of_append hfile hrest)]

/-- A node is a directory if the way to a file goes on from it. -/
theorem Covers.isDirectory_of_append {way rest : List String} {node : FileTree}
    (hmem : (way, node) ∈ tree.nodes) {file : String} (hfile : file ∈ files)
    (hrest : way ++ rest = wayOf file) : node.isDirectory = true ↔ rest ≠ [] := by
  obtain ⟨top, bytes, htop, hholds⟩ := h.holds file hfile
  rw [(h.grown.of_mem_nodes hmem).2.1, h.path_of_mem_nodes hroot habsolute hmem]
  exact isDirectory_of_prefix hroot habsolute htop (h.isEntryName_of_append hfile hrest)
    (hrest ▸ hholds)

theorem Covers.isDirectory_iff {way : List String} {node : FileTree}
    (hmem : (way, node) ∈ tree.nodes) :
    node.isDirectory = true ↔ ∃ file ∈ files, way <+: wayOf file ∧ way ≠ wayOf file := by
  constructor
  · intro hdirectory
    obtain ⟨file, hfile, rest, hrest⟩ := h.exists_rest hmem
    have hmore := (h.isDirectory_of_append hroot habsolute hmem hfile hrest).mp hdirectory
    refine ⟨file, hfile, ⟨rest, hrest⟩, fun heq => hmore ?_⟩
    rw [← heq] at hrest
    exact List.append_right_eq_self.mp hrest
  · rintro ⟨file, hfile, ⟨rest, hrest⟩, hne⟩
    refine (h.isDirectory_of_append hroot habsolute hmem hfile hrest).mpr fun hnil => hne ?_
    rw [← hrest, hnil, List.append_nil]

/-- A node without children is a file. -/
theorem Covers.file_of_childless {way : List String} {node : FileTree}
    (hmem : (way, node) ∈ tree.nodes) (hchildless : node.children = []) :
    ∃ file ∈ files, way = wayOf file ∧ node.path = (root ++ Path.parse file).render := by
  obtain ⟨file, hfile, rest, hrest⟩ := h.exists_rest hmem
  have hend : rest = [] := by
    by_contra hmore
    -- The beginnings of the way are nodes too, so the node would have a child on it.
    have hway : way ++ rest ∈ tree.ways := by
      refine (h.mem_ways _).mpr (mem_beginnings.mpr ⟨by simp [hmore], wayOf file, ?_, ?_⟩)
      · exact List.mem_map_of_mem hfile
      · rw [hrest]
    exact h.grown.children_ne_nil hmem hmore hway hchildless
  rw [hend, List.append_nil] at hrest
  refine ⟨file, hfile, hrest, ?_⟩
  rw [h.path_of_mem_nodes hroot habsolute hmem, hrest, h.pathOf_wayOf file hfile]

end

/-! ### The snapshot -/

/-- What a tree shows of files below a root, given by their paths as seen from there: the nodes of the
first `kept` files, which are as many as fit in. -/
structure Shows (root : Path) (files : List String) (limit : Int) (tree : FileTree) (kept : Nat) :
    Prop where
  /-- As many files are kept as have at most `limit` beginnings. -/
  kept_greatest : IsGreatest
    {k | k ≤ files.length ∧ ((beginnings ((files.take k).map wayOf)).card : Int) ≤ limit} kept
  /-- There is at most one node for each way. -/
  nodup_ways : tree.ways.Nodup
  /-- There are nodes for the beginnings of the kept files' ways, and no others. -/
  mem_ways : ∀ way, way ∈ tree.ways ↔ way ∈ beginnings ((files.take kept).map wayOf)
  /-- So the number of nodes is that of the beginnings. -/
  count_eq : tree.count = (beginnings ((files.take kept).map wayOf)).card
  /-- There are not more nodes than allowed. -/
  count_le : (tree.count : Int) ≤ limit
  /-- Siblings have different names, at the root and below. -/
  nodup_names : (tree.children.map (·.name)).Nodup ∧
    ∀ way node, (way, node) ∈ tree.nodes → (node.children.map (·.name)).Nodup
  /-- A node without children is a kept file, with the path that a sweep gives this file. -/
  file_of_childless : ∀ way node, (way, node) ∈ tree.nodes → node.children = [] →
    ∃ file ∈ files.take kept, way = wayOf file ∧ node.path = (root ++ Path.parse file).render
  /-- The directories are the nodes from which a way to a kept file goes on. -/
  isDirectory_iff : ∀ way node, (way, node) ∈ tree.nodes →
    (node.isDirectory = true ↔ ∃ file ∈ files.take kept, way <+: wayOf file ∧ way ≠ wayOf file)
  /-- The path of a node is its way, read in the root. -/
  path_eq : ∀ way node, (way, node) ∈ tree.nodes →
    node.path = (root ++ Path.parse (pathOf way)).render

/-- A snapshot is a single node into which the ways of the kept files have been inserted. -/
theorem exists_ofDisk (disk : Disk) (root : String) (exclude : List String) {limit : Int}
    (hlimit : 0 ≤ limit) :
    ∃ kept top, top.children = [] ∧ top.path = (Path.parse root).render ∧
      ofDisk disk root exclude limit =
        (((disk.files (Path.parse root).render exclude limit).take kept).map wayOf).foldl
          (FileTree.insert disk.isDirectory) top ∧
      IsGreatest {k | k ≤ (disk.files (Path.parse root).render exclude limit).length ∧
        ((beginnings (((disk.files (Path.parse root).render exclude limit).take k).map wayOf)).card
          : Int) ≤ limit} kept := by
  unfold ofDisk
  dsimp only
  generalize disk.files (Path.parse root).render exclude limit = files
  generalize htop : FileTree.mk (if (Path.parse root).name.isEmpty then (Path.parse root).render
    else (Path.parse root).name) (Path.parse root).render true [] = top
  have hchildren : top.children = [] := htop ▸ rfl
  have hzero : top.count = 0 := htop ▸ rfl
  obtain ⟨kept, hle, heq, hfits, hgreatest⟩ :=
    exists_insertWhileFits disk.isDirectory top hlimit (files.map wayOf)
  rw [List.length_map] at hle hgreatest
  rw [← List.map_take, count_foldl hchildren, hzero] at hfits
  refine ⟨kept, top, hchildren, htop ▸ rfl, ?_, ⟨hle, by omega⟩, ?_⟩
  · rw [List.map_take]
    exact heq
  · rintro k ⟨hk, hcard⟩
    by_contra hmore
    have hfull := hgreatest k (Nat.not_le.mp hmore) hk
    rw [← List.map_take, count_foldl hchildren, hzero] at hfull
    omega

/-- **What a snapshot shows of a workspace.** The root is absolute, and the disk is one that there can
be. -/
theorem ofDisk_shows {disk : Disk} (hdisk : disk.root.WellFormed) {root : String}
    (habsolute : (Path.parse root).isAbsolute) (exclude : List String) {limit : Int}
    (hlimit : 0 ≤ limit) :
    ∃ kept, Shows (Path.parse root) (disk.files (Path.parse root).render exclude limit) limit
      (ofDisk disk root exclude limit) kept := by
  obtain ⟨kept, top, hchildren, hpath, htree, hkept⟩ := exists_ofDisk disk root exclude hlimit
  have hread := Path.read_parse root
  have hcovers : (ofDisk disk root exclude limit).Covers disk (Path.parse root)
      ((disk.files (Path.parse root).render exclude limit).take kept) := by
    rw [htree]
    exact covers_foldl hdisk (fun file hfile => List.mem_of_mem_take hfile) hchildren hpath
  have hcount : (ofDisk disk root exclude limit).count = (beginnings
      (((disk.files (Path.parse root).render exclude limit).take kept).map wayOf)).card := by
    rw [htree]
    exact count_foldl hchildren
  refine ⟨kept, hkept, hcovers.grown.nodup_ways, hcovers.mem_ways, hcount, ?_,
    ⟨hcovers.grown.nodup_names, ?_⟩, ?_, ?_, ?_⟩
  · rw [hcount]
    exact hkept.1.2
  · exact fun way node hmem => (hcovers.grown.of_mem_nodes hmem).1.nodup_names
  · exact fun way node => hcovers.file_of_childless hread habsolute
  · exact fun way node => hcovers.isDirectory_iff hread habsolute
  · exact fun way node => hcovers.path_of_mem_nodes hread habsolute

/-- A disk with three files in a workspace, two of them in one directory. -/
def threeFiles : Disk :=
  { root := .directory [("w", .directory [
      ("a", .directory [("x", .file ⟨#[]⟩), ("y", .file ⟨#[]⟩)]), ("b", .file ⟨#[]⟩)])] }

theorem wellFormed_threeFiles : threeFiles.root.WellFormed := by
  have hnames : ∀ name ∈ ["w", "a", "b", "x", "y"], IsEntryName name := by
    intro name hname
    refine ⟨?_, ?_, ?_, ?_⟩ <;> revert name <;> decide
  refine .directory (by decide) (by simp [hnames]) ?_
  simp only [List.forall_mem_singleton]
  refine .directory (by decide) (by simp [hnames]) ?_
  simp only [List.forall_mem_cons]
  exact ⟨.directory (by decide) (by simp [hnames]) (by simp [DiskEntry.WellFormed.file]),
    .file _, fun _ h => absurd h List.not_mem_nil⟩

/-- With room for three nodes a snapshot keeps the two files of the directory. -/
theorem ofDisk_shows_threeFiles :
    threeFiles.root.WellFormed ∧ (Path.parse "/w").isAbsolute ∧
      ∃ kept, Shows (Path.parse "/w") (threeFiles.files (Path.parse "/w").render [] 3) 3
        (ofDisk threeFiles "/w" [] 3) kept := by
  have habsolute : (Path.parse "/w").isAbsolute := by decide +kernel
  exact ⟨wellFormed_threeFiles, habsolute,
    ofDisk_shows wellFormed_threeFiles habsolute [] (by decide)⟩

example : (ofDisk threeFiles "/w" [] 3).ways = [["a"], ["a", "x"], ["a", "y"]] := by cbv

end FileTree

end Vicinity
