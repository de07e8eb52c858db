import Mathlib.Data.List.Nodup
import Vicinity.Proofs.FileTree.Snapshot

/-!
# Rendering a file tree

A file tree is shown with one line for a node. The children of a directory come in an order of their own
in the lines: directories before files, and each by name. So the lines do not depend on the order in which
the tree holds the children of its nodes, provided that siblings have different names and that only
directories have children.

The lines of a tree as it stands (`lines`) are those of its nodes, each with the indent of its depth. A tree
is shown by the lines of another tree, which holds the same nodes in the right order (`arrange`).

## What is proved

* `Rearranged.perm_lines`: in another order, a tree has the same lines in another order.
* `Rearranged.arrange_eq`: trees that differ in the order of children only are arranged in the same way.
* `arranged_arrange`: directories come before files, each by name.
* `render_eq_lines`: rendering gives the lines of the arranged tree.
* `render_orderly`: these together.
* `orderly_ofDisk`: the snapshot of a workspace is orderly.
-/

namespace Vicinity

namespace FileTree

/-- What holds of a tree if it holds of its children holds of every tree. -/
theorem induct {motive : FileTree → Prop}
    (node : ∀ tree : FileTree, (∀ child ∈ tree.children, motive child) → motive tree)
    (tree : FileTree) : motive tree := by
  refine node tree fun child hchild => ?_
  have hsmaller : sizeOf child < sizeOf tree := by
    have hmem : sizeOf child < sizeOf tree.children := List.sizeOf_lt_of_mem hchild
    cases tree
    simp only [mk.sizeOf_spec] at hmem ⊢
    omega
  exact induct node child
termination_by sizeOf tree

/-- Siblings have different names, and only directories have children. -/
inductive Orderly : FileTree → Prop where
  /-- A node with orderly children. -/
  | node {tree : FileTree} (nodup : (tree.children.map (·.name)).Nodup)
      (isDirectory : tree.children ≠ [] → tree.isDirectory = true)
      (children : ∀ child ∈ tree.children, Orderly child) : Orderly tree

/-- The same tree with the children of some nodes, at any levels, in another order. -/
inductive Rearranged : FileTree → FileTree → Prop where
  /-- Nothing has been moved. -/
  | refl (tree : FileTree) : Rearranged tree tree
  /-- The children of the root have been moved. -/
  | root {tree : FileTree} {children : List FileTree} (perm : tree.children.Perm children) :
      Rearranged tree { tree with children }
  /-- Nodes below one of the children have been moved. -/
  | inside {tree child other : FileTree} {before after : List FileTree}
      (split : tree.children = before ++ child :: after) (h : Rearranged child other) :
      Rearranged tree { tree with children := before ++ other :: after }
  /-- One after the other. -/
  | trans {tree other third : FileTree} (first : Rearranged tree other)
      (second : Rearranged other third) : Rearranged tree third

/-- A node comes before a sibling: a directory before a file, and otherwise the one whose name is less. -/
def Precedes (a b : FileTree) : Prop :=
  (a.isDirectory = true ∧ b.isDirectory = false) ∨ (a.isDirectory = b.isDirectory ∧ a.name < b.name)

/-- At each level directories come before files, both in the order of their names. -/
inductive Arranged : FileTree → Prop where
  /-- A node with arranged children. -/
  | node {tree : FileTree} (sorted : tree.children.Pairwise Precedes)
      (children : ∀ child ∈ tree.children, Arranged child) : Arranged tree

/-- The line of a node that lies `depth` levels below the one that is shown first. -/
def line (touched : List String) (indent : String) (depth : Nat) (node : FileTree) : String :=
  indent ++ String.join (List.replicate depth "  ") ++ node.name ++
    if touched.contains node.path then touchedMark else ""

/-- The lines of a node and of those below it, in the order in which the tree holds them. -/
def lines (touched : List String) (indent : String) (tree : FileTree) : List String :=
  line touched indent 0 tree ::
    tree.nodes.map fun (way, node) => line touched indent way.length node

variable {tree other : FileTree} {touched : List String} {indent : String}

/-! ### Lines -/

theorem line_succ (depth : Nat) (node : FileTree) :
    line touched indent (depth + 1) node = line touched (indent ++ "  ") depth node := by
  simp only [line, List.replicate_succ, String.join_cons, String.append_assoc]

/-- The lines of a tree are that of its root and those of the trees below it. -/
theorem lines_eq (touched : List String) (indent : String) (tree : FileTree) :
    tree.lines touched indent =
      line touched indent 0 tree :: tree.children.flatMap (lines touched (indent ++ "  ")) := by
  rw [lines, nodes_eq, List.map_flatMap]
  congr 2
  funext child
  simp only [lines, List.map_cons, List.map_map, List.length_singleton]
  rw [line_succ]
  congr 2
  funext ⟨way, node⟩
  exact line_succ way.length node

theorem length_lines (touched : List String) (indent : String) (tree : FileTree) :
    (tree.lines touched indent).length = 1 + tree.count := by
  rw [lines, List.length_cons, List.length_map, length_nodes, Nat.add_comm]

/-- **In another order a tree has the same lines** in another order. -/
theorem Rearranged.perm_lines (h : tree.Rearranged other) (touched : List String) (indent : String) :
    (tree.lines touched indent).Perm (other.lines touched indent) := by
  induction h generalizing indent with
  | refl tree => exact .refl _
  | root perm =>
    rw [lines_eq, lines_eq]
    exact (perm.flatMap_right _).cons _
  | inside split _ ih =>
    rw [lines_eq, lines_eq, split]
    simp only [List.flatMap_append, List.flatMap_cons]
    exact (((ih _).append_right _).append_left _).cons _
  | trans _ _ ih₁ ih₂ => exact (ih₁ _).trans (ih₂ _)

/-! ### Arranging a tree -/

/-- The order of two siblings. -/
def nodeLe (a b : FileTree) : Bool := siblingLe (a.isDirectory, a.name) (b.isDirectory, b.name)

mutual

/-- The tree with the children of each node in order. -/
def arrange : FileTree → FileTree
  | ⟨name, path, isDirectory, children⟩ =>
    ⟨name, path, isDirectory, (arrangeAll children).mergeSort nodeLe⟩

/-- Several trees with the children of each node in order. -/
def arrangeAll : List FileTree → List FileTree
  | [] => []
  | tree :: more => tree.arrange :: arrangeAll more

end

theorem arrangeAll_eq (children : List FileTree) : arrangeAll children = children.map arrange := by
  induction children with
  | nil => rfl
  | cons child more ih => rw [arrangeAll, ih, List.map_cons]

theorem arrange_eq (tree : FileTree) :
    tree.arrange = { tree with children := (tree.children.map arrange).mergeSort nodeLe } := by
  rw [← arrangeAll_eq]
  cases tree
  rfl

@[simp] theorem arrange_name (tree : FileTree) : tree.arrange.name = tree.name := by cases tree; rfl

@[simp] theorem arrange_isDirectory (tree : FileTree) :
    tree.arrange.isDirectory = tree.isDirectory := by cases tree; rfl

theorem nodeLe_arrange (a b : FileTree) : nodeLe a.arrange b.arrange = nodeLe a b := by
  simp only [nodeLe, arrange_name, arrange_isDirectory]

theorem nodeLe_iff {a b : FileTree} :
    nodeLe a b = true ↔ (a.isDirectory = true ∧ b.isDirectory = false) ∨
      (a.isDirectory = b.isDirectory ∧ a.name ≤ b.name) := by
  unfold nodeLe siblingLe
  dsimp only
  cases a.isDirectory <;> cases b.isDirectory <;> simp

theorem pairwise_mergeSort_nodeLe (children : List FileTree) :
    (children.mergeSort nodeLe).Pairwise fun a b => nodeLe a b = true := by
  refine List.pairwise_mergeSort (fun a b c hab hbc => ?_) (fun a b => ?_) children
  · rw [nodeLe_iff] at hab hbc ⊢
    rcases hab with ⟨ha, hb⟩ | ⟨hab, hle⟩ <;> rcases hbc with ⟨hb', hc⟩ | ⟨hbc, hle'⟩
    · exact .inl ⟨ha, hc⟩
    · exact .inl ⟨ha, hbc ▸ hb⟩
    · exact .inl ⟨hab ▸ hb', hc⟩
    · exact .inr ⟨hab.trans hbc, String.le_trans hle hle'⟩
  · rw [Bool.or_eq_true, nodeLe_iff, nodeLe_iff]
    rcases String.le_total a.name b.name with hle | hle <;>
      cases a.isDirectory <;> cases b.isDirectory <;> simp [hle]

/-- The order tells siblings with different names apart. -/
theorem eq_of_nodeLe {children : List FileTree} (hnodup : (children.map (·.name)).Nodup) {a b : FileTree}
    (ha : a ∈ children) (hb : b ∈ children) (hab : nodeLe a b = true) (hba : nodeLe b a = true) :
    a = b := by
  refine List.inj_on_of_nodup_map hnodup ha hb ?_
  rcases nodeLe_iff.mp hab with ⟨h₁, h₂⟩ | ⟨hkind, hle⟩ <;>
    rcases nodeLe_iff.mp hba with ⟨h₃, h₄⟩ | ⟨hkind', hle'⟩
  · exact absurd (h₁.symm.trans h₄) (by decide)
  · exact absurd (h₁.symm.trans (hkind'.symm.trans h₂)) (by decide)
  · exact absurd (h₃.symm.trans (hkind.symm.trans h₄)) (by decide)
  · exact String.le_antisymm hle hle'

/-- Siblings with different names have one order only. -/
theorem mergeSort_nodeLe_congr {children others : List FileTree} (h : children.Perm others)
    (hnodup : (children.map (·.name)).Nodup) :
    children.mergeSort nodeLe = others.mergeSort nodeLe := by
  have hperm := (List.mergeSort_perm children nodeLe).trans
    (h.trans (List.mergeSort_perm others nodeLe).symm)
  refine hperm.eq_of_pairwise (fun a b ha hb hab hba => ?_) (pairwise_mergeSort_nodeLe children)
    (pairwise_mergeSort_nodeLe others)
  exact eq_of_nodeLe hnodup (List.mem_mergeSort.mp ha) (h.mem_iff.mpr (List.mem_mergeSort.mp hb)) hab hba

/-! ### Trees in another order -/

theorem Rearranged.name_eq (h : tree.Rearranged other) : other.name = tree.name := by
  induction h with
  | refl tree => rfl
  | root _ => rfl
  | inside _ _ _ => rfl
  | trans _ _ ih₁ ih₂ => exact ih₂.trans ih₁

/-- An orderly tree stays one in another order. -/
theorem Rearranged.orderly (h : tree.Rearranged other) (htree : tree.Orderly) : other.Orderly := by
  induction h with
  | refl tree => exact htree
  | root perm =>
    obtain ⟨nodup, isDirectory, children⟩ := htree
    refine .node ((perm.map _).nodup_iff.mp nodup) (fun hne => isDirectory fun hnil => hne ?_) ?_
    · rw [hnil] at perm
      exact perm.nil_eq.symm
    · exact fun child hchild => children child (perm.mem_iff.mpr hchild)
  | @inside tree child other before after split hother ih =>
    obtain ⟨nodup, isDirectory, children⟩ := htree
    rw [split] at nodup isDirectory children
    refine .node ?_ (fun _ => isDirectory (by simp)) ?_
    · simpa only [List.map_append, List.map_cons, hother.name_eq] using nodup
    · intro node hnode
      rcases List.mem_append.mp hnode with hnode | hnode
      · exact children node (List.mem_append_left _ hnode)
      · rcases List.mem_cons.mp hnode with rfl | hnode
        · exact ih (children child (by simp))
        · exact children node (List.mem_append_right _ (List.mem_cons_of_mem _ hnode))
  | trans _ _ ih₁ ih₂ => exact ih₂ (ih₁ htree)

/-- **Trees that differ in the order of children only are arranged in the same way.** -/
theorem Rearranged.arrange_eq (h : tree.Rearranged other) (htree : tree.Orderly) :
    tree.arrange = other.arrange := by
  induction h with
  | refl tree => rfl
  | @root tree children perm =>
    obtain ⟨nodup, -, -⟩ := htree
    rw [FileTree.arrange_eq, FileTree.arrange_eq { tree with children },
      mergeSort_nodeLe_congr (perm.map arrange)]
    simpa only [List.map_map, Function.comp_def, arrange_name] using nodup
  | @inside tree child other before after split hother ih =>
    obtain ⟨-, -, children⟩ := htree
    have hchild := ih (children child (by simp [split]))
    rw [FileTree.arrange_eq, FileTree.arrange_eq { tree with children := before ++ other :: after }, split]
    simp only [List.map_append, List.map_cons, hchild]
  | trans first _ ih₁ ih₂ => exact (ih₁ htree).trans (ih₂ (first.orderly htree))

/-- Each of the children may be replaced by itself in another order. -/
theorem rearranged_map {f : FileTree → FileTree} (tree : FileTree) (before children : List FileTree)
    (h : ∀ child ∈ children, child.Rearranged (f child)) :
    Rearranged { tree with children := before ++ children }
      { tree with children := before ++ children.map f } := by
  induction children generalizing before with
  | nil => exact .refl _
  | cons child more ih =>
    have hfirst : Rearranged { tree with children := before ++ child :: more }
        { tree with children := before ++ f child :: more } := .inside rfl (h child List.mem_cons_self)
    have hrest := ih (before ++ [f child]) fun node hnode => h node (List.mem_cons_of_mem _ hnode)
    simp only [List.append_assoc, List.cons_append, List.nil_append] at hrest
    exact hfirst.trans hrest

/-- Arranging moves children, and does nothing else. -/
theorem rearranged_arrange (tree : FileTree) : tree.Rearranged tree.arrange := by
  induction tree using induct with
  | node tree ih =>
    obtain ⟨name, path, isDirectory, children⟩ := tree
    rw [arrange_eq]
    have hinside := rearranged_map ⟨name, path, isDirectory, children⟩ [] children ih
    have hroot : Rearranged ⟨name, path, isDirectory, children.map arrange⟩
        ⟨name, path, isDirectory, (children.map arrange).mergeSort nodeLe⟩ :=
      .root (List.mergeSort_perm _ nodeLe).symm
    exact hinside.trans hroot

/-- **In an arranged tree directories come before files**, each by name. -/
theorem arranged_arrange (h : tree.Orderly) : tree.arrange.Arranged := by
  induction tree using induct with
  | node tree ih =>
    obtain ⟨nodup, -, children⟩ := h
    rw [arrange_eq]
    refine .node ?_ fun child hchild => ?_
    · have hnames : ((tree.children.map arrange).mergeSort nodeLe).Pairwise
          fun a b => a.name ≠ b.name := by
        have hnodup : ((tree.children.map arrange).map (·.name)).Nodup := by
          simpa only [List.map_map, Function.comp_def, arrange_name] using nodup
        exact List.pairwise_map.mp (((List.mergeSort_perm _ nodeLe).map _).nodup_iff.mpr hnodup)
      refine (pairwise_mergeSort_nodeLe _).imp₂ (fun a b hle hne => ?_) hnames
      exact (nodeLe_iff.mp hle).imp_right fun ⟨hkind, hname⟩ =>
        ⟨hkind, String.not_le.mp fun hge => hne (String.le_antisymm hname hge)⟩
    · obtain ⟨child, hmem, rfl⟩ := List.mem_map.mp (List.mem_mergeSort.mp hchild)
      exact ih child hmem (children child hmem)

/-! ### Rendering -/

theorem renderAll_eq (touched : List String) (indent : String) (children : List FileTree) :
    renderAll touched indent children =
      children.map fun child => ((child.isDirectory, child.name), child.render touched indent) := by
  induction children with
  | nil => rfl
  | cons child more ih => rw [renderAll, ih, List.map_cons]

/-- Children may be put in order before they are rendered. -/
theorem mergeSort_renderAll (touched : List String) (indent : String) (children : List FileTree) :
    (renderAll touched indent children).mergeSort (fun a b => siblingLe a.1 b.1) =
      renderAll touched indent (children.mergeSort nodeLe) := by
  rw [renderAll_eq, renderAll_eq]
  refine (List.map_mergeSort ?_).symm
  intro a _ b _
  rfl

/-- The lines of a directory are its own and those of its children in order. -/
theorem render_eq (touched : List String) (indent : String) (tree : FileTree) :
    tree.render touched indent = line touched indent 0 tree ::
      if tree.isDirectory then
        (tree.children.mergeSort nodeLe).flatMap (render touched (indent ++ "  "))
      else [] := by
  obtain ⟨name, path, isDirectory, children⟩ := tree
  rw [render, mergeSort_renderAll, renderAll_eq, List.flatMap_map]
  simp [line]

/-- **Rendering gives the lines of the arranged tree.** -/
theorem render_eq_lines (h : tree.Orderly) (touched : List String) (indent : String) :
    tree.render touched indent = tree.arrange.lines touched indent := by
  induction tree using induct generalizing indent with
  | node tree ih =>
    obtain ⟨-, isDirectory, children⟩ := h
    have hsort : (tree.children.map arrange).mergeSort nodeLe =
        (tree.children.mergeSort nodeLe).map arrange :=
      (List.map_mergeSort fun a _ b _ => (nodeLe_arrange a b).symm).symm
    rw [render_eq, lines_eq, arrange_eq]
    refine congrArg₂ List.cons rfl ?_
    dsimp only
    rw [hsort, List.flatMap_map]
    split
    · exact List.flatMap_congr fun child hchild =>
        ih child (List.mem_mergeSort.mp hchild) (children child (List.mem_mergeSort.mp hchild)) _
    · rename_i hfile
      have hnil : tree.children = [] := by
        by_contra hne
        exact hfile (isDirectory hne)
      simp [hnil]

/-- **What is shown of an orderly tree**: a line for each node, which are those of the tree with the children
of each node in order, whatever order the tree itself holds them in. -/
theorem render_orderly (h : tree.Orderly) (touched : List String) (indent : String) :
    (tree.render touched indent).length = 1 + tree.count ∧
    (tree.render touched indent).Perm (tree.lines touched indent) ∧
    (∃ shown, tree.Rearranged shown ∧ shown.Arranged ∧
      tree.render touched indent = shown.lines touched indent) ∧
    ∀ other, tree.Rearranged other → other.render touched indent = tree.render touched indent := by
  have hrender := render_eq_lines h touched indent
  have hperm := (rearranged_arrange tree).perm_lines touched indent
  refine ⟨?_, ?_, ⟨tree.arrange, rearranged_arrange tree, arranged_arrange h, hrender⟩,
    fun other hother => ?_⟩
  · rw [hrender, ← hperm.length_eq, length_lines]
  · rw [hrender]
    exact hperm.symm
  · rw [hrender, render_eq_lines (hother.orderly h), hother.arrange_eq h]

/-- A directory with a file and a directory, which holds a file. -/
def twoLevels : FileTree :=
  ⟨"ws", "/ws", true, [⟨"b.ts", "/ws/b.ts", false, []⟩,
    ⟨"src", "/ws/src", true, [⟨"x.ts", "/ws/src/x.ts", false, []⟩]⟩]⟩

/-- The same directory, with the file after the directory. -/
def twoLevelsTurned : FileTree :=
  ⟨"ws", "/ws", true, [⟨"src", "/ws/src", true, [⟨"x.ts", "/ws/src/x.ts", false, []⟩]⟩,
    ⟨"b.ts", "/ws/b.ts", false, []⟩]⟩

theorem orderly_twoLevels : twoLevels.Orderly := by
  have hleaf : ∀ name path, Orderly ⟨name, path, false, []⟩ := fun name path =>
    .node List.nodup_nil (fun h => absurd rfl h) fun _ h => absurd h List.not_mem_nil
  refine .node (by decide) (fun _ => rfl) ?_
  simp only [twoLevels, List.forall_mem_cons]
  refine ⟨hleaf _ _, .node (by decide) (fun _ => rfl) ?_, fun _ h => absurd h List.not_mem_nil⟩
  simp only [List.forall_mem_singleton]
  exact hleaf _ _

/-- A line for each of the four nodes, whether the file or the directory comes first in the tree. -/
theorem render_orderly_twoLevels :
    twoLevels.Orderly ∧
    (twoLevels.render ["/ws/src/x.ts"] "").length = 4 ∧
    (∃ shown, twoLevels.Rearranged shown ∧ shown.Arranged ∧
      twoLevels.render ["/ws/src/x.ts"] "" = shown.lines ["/ws/src/x.ts"] "") ∧
    twoLevels.Rearranged twoLevelsTurned ∧
    twoLevelsTurned.render ["/ws/src/x.ts"] "" = twoLevels.render ["/ws/src/x.ts"] "" := by
  obtain ⟨hlength, -, hshown, hsame⟩ := render_orderly orderly_twoLevels ["/ws/src/x.ts"] ""
  have hturned : twoLevels.Rearranged twoLevelsTurned := .root (List.Perm.swap _ _ [])
  exact ⟨orderly_twoLevels, hlength, hshown, hturned, hsame twoLevelsTurned hturned⟩

example : twoLevels.render ["/ws/src/x.ts"] "" = ["ws", "  src", "    x.ts *", "  b.ts"] := by cbv

/-! ### Snapshots -/

/-- The children of a node below a tree are below it too. -/
theorem mem_nodes_of_child {way : List String} {node child : FileTree} (h : (way, node) ∈ tree.nodes)
    (hchild : child ∈ node.children) : (way ++ [child.name], child) ∈ tree.nodes := by
  induction tree using induct generalizing way with
  | node tree ih =>
    obtain ⟨top, htop, ⟨rfl, rfl⟩ | ⟨rest, rfl, hrest⟩⟩ := mem_nodes.mp h
    · have hbelow : ([child.name], child) ∈ node.nodes :=
        mem_nodes.mpr ⟨child, hchild, .inl ⟨rfl, rfl⟩⟩
      exact mem_nodes.mpr ⟨node, htop, .inr ⟨[child.name], rfl, hbelow⟩⟩
    · exact mem_nodes.mpr ⟨top, htop, .inr ⟨rest ++ [child.name], rfl, ih top htop hrest⟩⟩

/-- A tree is orderly if its root and each node below it are. -/
theorem orderly_of_nodes (hnodup : (tree.children.map (·.name)).Nodup)
    (hdirectory : tree.children ≠ [] → tree.isDirectory = true)
    (hnodes : ∀ way node, (way, node) ∈ tree.nodes → (node.children.map (·.name)).Nodup ∧
      (node.children ≠ [] → node.isDirectory = true)) : tree.Orderly := by
  induction tree using induct with
  | node tree ih =>
    refine .node hnodup hdirectory fun child hchild => ?_
    have hmem : ([child.name], child) ∈ tree.nodes := mem_nodes.mpr ⟨child, hchild, .inl ⟨rfl, rfl⟩⟩
    obtain ⟨hnames, hkind⟩ := hnodes [child.name] child hmem
    refine ih child hchild hnames hkind fun way node hmem => ?_
    exact hnodes (child.name :: way) node (mem_nodes.mpr ⟨child, hchild, .inr ⟨way, rfl, hmem⟩⟩)

theorem insertWhileFits_isDirectory (isDirectory : String → Bool) (tree : FileTree) (room : Int)
    (ways : List (List String)) :
    (insertWhileFits isDirectory tree room ways).isDirectory = tree.isDirectory := by
  induction ways generalizing tree room with
  | nil => rfl
  | cons way more ih =>
    rw [insertWhileFits]
    split
    · rfl
    · rw [ih, insert_isDirectory]

/-- **The snapshot of a workspace is orderly.** -/
theorem orderly_ofDisk {disk : Disk} (hdisk : disk.root.WellFormed) {root : String}
    (habsolute : (Path.parse root).isAbsolute) (exclude : List String) {limit : Int}
    (hlimit : 0 ≤ limit) : (ofDisk disk root exclude limit).Orderly := by
  obtain ⟨kept, top, hchildren, hpath, htree, -⟩ := exists_ofDisk disk root exclude hlimit
  have hread := Path.read_parse root
  have hcovers : (ofDisk disk root exclude limit).Covers disk (Path.parse root)
      ((disk.files (Path.parse root).render exclude limit).take kept) := by
    rw [htree]
    exact covers_foldl hdisk (fun file hfile => List.mem_of_mem_take hfile) hchildren hpath
  have hroot : (ofDisk disk root exclude limit).isDirectory = true := insertWhileFits_isDirectory _ _ _ _
  refine orderly_of_nodes hcovers.grown.nodup_names (fun _ => hroot) fun way node hmem => ?_
  refine ⟨(hcovers.grown.of_mem_nodes hmem).1.nodup_names, fun hne => ?_⟩
  obtain ⟨child, more, hsplit⟩ := List.exists_cons_of_ne_nil hne
  have hchild := mem_nodes_of_child hmem (hsplit ▸ List.mem_cons_self : child ∈ node.children)
  obtain ⟨file, hfile, rest, hrest⟩ := hcovers.exists_rest hchild
  rw [List.append_assoc] at hrest
  exact (hcovers.isDirectory_of_append hread habsolute hmem hfile hrest).mpr (by simp)

end FileTree

end Vicinity
