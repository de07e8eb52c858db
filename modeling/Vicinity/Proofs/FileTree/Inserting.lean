import Vicinity.FileTree
import Vicinity.Proofs.Disk.Files
import Mathlib.Data.List.Nodup
import Mathlib.Data.List.Infix

/-!
# Inserting ways into a file tree

Each node below a node is reached by a way of names. Inserting a way adds a node for each of its
beginnings that has none yet, and `missing`, which is asked beforehand, counts just these.

## What is proved

* `mem_ways_insert`: after an insertion there are nodes for the ways before and for the beginnings of
  the inserted way.
* `count_insert`: an insertion adds as many nodes as were missing.
* `Grown.insert`: an insertion keeps siblings different, and each node's path and kind as they should
  be; `Grown.nodup_ways`: then there is one node for each way.
* `exists_insertWhileFits`: where insertion stops.
-/

namespace Vicinity

namespace FileTree

mutual

/-- The nodes below a node, each with the way of names that leads to it. -/
def nodes : FileTree → List (List String × FileTree)
  | ⟨_, _, _, children⟩ => nodesAll children

/-- Several trees and the nodes below them, each with the way of names that leads to it. -/
def nodesAll : List FileTree → List (List String × FileTree)
  | [] => []
  | tree :: more =>
    ([tree.name], tree) :: tree.nodes.map (Prod.map (tree.name :: ·) id) ++ nodesAll more

end

/-- The ways that lead to the nodes below a node. -/
def ways (tree : FileTree) : List (List String) := tree.nodes.map (·.1)

/-! ### Nodes and their ways -/

theorem nodesAll_eq (children : List FileTree) :
    nodesAll children = children.flatMap fun child =>
      ([child.name], child) :: child.nodes.map (Prod.map (child.name :: ·) id) := by
  induction children with
  | nil => rfl
  | cons child more ih => rw [nodesAll, ih, List.flatMap_cons]

theorem nodes_eq (tree : FileTree) :
    tree.nodes = tree.children.flatMap fun child =>
      ([child.name], child) :: child.nodes.map (Prod.map (child.name :: ·) id) := by
  rw [← nodesAll_eq]
  cases tree
  rfl

theorem count_eq (tree : FileTree) : tree.count = countAll tree.children := by
  cases tree
  rfl

theorem countAll_append (before after : List FileTree) :
    countAll (before ++ after) = countAll before + countAll after := by
  induction before with
  | nil => rw [List.nil_append, countAll, Nat.zero_add]
  | cons child more ih =>
    rw [List.cons_append, countAll, countAll, ih]
    omega

mutual

/-- There is a way for each node that is counted. -/
theorem length_nodes : (tree : FileTree) → tree.nodes.length = tree.count
  | ⟨_, _, _, children⟩ => by
    rw [nodes, count]
    exact length_nodesAll children

theorem length_nodesAll : (children : List FileTree) →
    (nodesAll children).length = countAll children
  | [] => rfl
  | child :: more => by
    simp only [nodesAll, countAll, List.length_append, List.length_cons, List.length_map,
      length_nodes child, length_nodesAll more]
    omega

end

/-- A node is below another if it is one of its children or below one of them. -/
theorem mem_nodes {tree node : FileTree} {way : List String} :
    (way, node) ∈ tree.nodes ↔
      ∃ child ∈ tree.children, (way = [child.name] ∧ node = child) ∨
        ∃ rest, way = child.name :: rest ∧ (rest, node) ∈ child.nodes := by
  rw [nodes_eq, List.mem_flatMap]
  refine exists_congr fun child => and_congr_right fun _ => ?_
  rw [List.mem_cons, List.mem_map, Prod.mk.injEq]
  refine or_congr_right ⟨?_, ?_⟩
  · rintro ⟨⟨rest, other⟩, hmem, heq⟩
    cases heq
    exact ⟨rest, rfl, hmem⟩
  · rintro ⟨rest, rfl, hmem⟩
    exact ⟨(rest, node), hmem, rfl⟩

theorem mem_ways {tree : FileTree} {way : List String} :
    way ∈ tree.ways ↔ ∃ node, (way, node) ∈ tree.nodes := by
  rw [ways, List.mem_map]
  constructor
  · rintro ⟨⟨other, node⟩, hmem, rfl⟩
    exact ⟨node, hmem⟩
  · rintro ⟨node, hmem⟩
    exact ⟨(way, node), hmem, rfl⟩

/-- A way that leads to a child, or through it to a node below it. -/
def Enters (child : FileTree) (way : List String) : Prop :=
  ∃ rest, way = child.name :: rest ∧ (rest = [] ∨ rest ∈ child.ways)

theorem mem_ways_iff {tree : FileTree} {way : List String} :
    way ∈ tree.ways ↔ ∃ child ∈ tree.children, child.Enters way := by
  rw [mem_ways]
  constructor
  · rintro ⟨node, hmem⟩
    obtain ⟨child, hchild, ⟨rfl, rfl⟩ | ⟨rest, rfl, hrest⟩⟩ := mem_nodes.mp hmem
    · exact ⟨node, hchild, [], rfl, .inl rfl⟩
    · exact ⟨child, hchild, rest, rfl, .inr (mem_ways.mpr ⟨node, hrest⟩)⟩
  · rintro ⟨child, hchild, rest, rfl, rfl | hrest⟩
    · exact ⟨child, mem_nodes.mpr ⟨child, hchild, .inl ⟨rfl, rfl⟩⟩⟩
    · obtain ⟨node, hnode⟩ := mem_ways.mp hrest
      exact ⟨node, mem_nodes.mpr ⟨child, hchild, .inr ⟨rest, rfl, hnode⟩⟩⟩

theorem ne_nil_of_mem_ways {tree : FileTree} {way : List String} (h : way ∈ tree.ways) : way ≠ [] := by
  obtain ⟨child, -, rest, rfl, -⟩ := mem_ways_iff.mp h
  exact List.cons_ne_nil _ _

/-! ### One insertion -/

@[simp] theorem insert_nil (isDirectory : String → Bool) (tree : FileTree) :
    tree.insert isDirectory [] = tree := rfl

@[simp] theorem insert_name (isDirectory : String → Bool) (tree : FileTree) (way : List String) :
    (tree.insert isDirectory way).name = tree.name := by cases way <;> rfl

@[simp] theorem insert_path (isDirectory : String → Bool) (tree : FileTree) (way : List String) :
    (tree.insert isDirectory way).path = tree.path := by cases way <;> rfl

@[simp] theorem insert_isDirectory (isDirectory : String → Bool) (tree : FileTree)
    (way : List String) : (tree.insert isDirectory way).isDirectory = tree.isDirectory := by
  cases way <;> rfl

/-- A new node for a name in a directory. -/
def fresh (isDirectory : String → Bool) (tree : FileTree) (name : String) : FileTree :=
  { name, path := childPath tree.path name, isDirectory := isDirectory (childPath tree.path name) }

theorem insert_cons (isDirectory : String → Bool) (tree : FileTree) (name : String)
    (more : List String) :
    tree.insert isDirectory (name :: more) =
      { tree with
        children := setChild
          (((tree.child? name).getD (tree.fresh isDirectory name)).insert isDirectory more)
          tree.children } := rfl

theorem setChild_of_not_mem {new : FileTree} {children : List FileTree}
    (h : new.name ∉ children.map (·.name)) : setChild new children = children ++ [new] := by
  induction children with
  | nil => rfl
  | cons child more ih =>
    rw [List.map_cons, List.mem_cons, not_or] at h
    rw [setChild, if_neg (Ne.symm h.1), ih h.2, List.cons_append]

theorem setChild_of_split {new child : FileTree} {before after : List FileTree}
    (h : new.name ∉ before.map (·.name)) (hname : child.name = new.name) :
    setChild new (before ++ child :: after) = before ++ new :: after := by
  induction before with
  | nil => rw [List.nil_append, setChild, if_pos hname, List.nil_append]
  | cons first more ih =>
    rw [List.map_cons, List.mem_cons, not_or] at h
    rw [List.cons_append, setChild, if_neg (Ne.symm h.1), ih h.2, List.cons_append]

/-- Inserting goes on in the child of the first name, or in a new one after all the others. -/
theorem insert_cases (isDirectory : String → Bool) (tree : FileTree) (name : String)
    (more : List String) :
    (∃ before child after, tree.children = before ++ child :: after ∧ child.name = name ∧
      tree.missing (name :: more) = child.missing more ∧
      tree.insert isDirectory (name :: more) =
        { tree with children := before ++ child.insert isDirectory more :: after }) ∨
    (name ∉ tree.children.map (·.name) ∧ tree.missing (name :: more) = more.length + 1 ∧
      tree.insert isDirectory (name :: more) =
        { tree with
          children := tree.children ++ [(tree.fresh isDirectory name).insert isDirectory more] }) := by
  rw [insert_cons, missing]
  cases hfind : tree.child? name with
  | none =>
    right
    have hnone : name ∉ tree.children.map (·.name) := by
      intro hmem
      obtain ⟨child, hchild, hname⟩ := List.mem_map.mp hmem
      exact List.find?_eq_none.mp hfind child hchild (beq_iff_eq.mpr hname)
    refine ⟨hnone, rfl, ?_⟩
    rw [Option.getD_none, setChild_of_not_mem (by rw [insert_name]; exact hnone)]
  | some child =>
    left
    obtain ⟨hname, before, after, hsplit, hbefore⟩ := List.find?_eq_some_iff_append.mp hfind
    have hchild : child.name = name := beq_iff_eq.mp hname
    refine ⟨before, child, after, hsplit, hchild, rfl, ?_⟩
    rw [Option.getD_some, hsplit, setChild_of_split ?_ (insert_name _ _ _).symm]
    intro hmem
    obtain ⟨other, hother, heq⟩ := List.mem_map.mp hmem
    have hne := hbefore other hother
    rw [heq, insert_name, hchild] at hne
    simp at hne

theorem enters_fresh {isDirectory : String → Bool} {tree : FileTree} {name : String}
    {way : List String} : (tree.fresh isDirectory name).Enters way ↔ way = [name] := by
  constructor
  · rintro ⟨rest, rfl, rfl | hrest⟩
    · rfl
    · cases hrest
  · rintro rfl
    exact ⟨[], rfl, .inl rfl⟩

/-- **After an insertion there are nodes for the ways before and for the beginnings of the new one.** -/
theorem mem_ways_insert {isDirectory : String → Bool} {tree : FileTree} {new way : List String} :
    way ∈ (tree.insert isDirectory new).ways ↔ way ∈ tree.ways ∨ way ≠ [] ∧ way <+: new := by
  induction new generalizing tree way with
  | nil => simp
  | cons name more ih =>
    -- Both cases of an insertion go on in a child of the first name, an old one or a new one.
    have hchild : ∀ child : FileTree, child.name = name →
        ((child.insert isDirectory more).Enters way ↔
          child.Enters way ∨ way ≠ [] ∧ way <+: name :: more) := by
      intro child hname
      rw [List.prefix_cons_iff]
      constructor
      · rintro ⟨rest, rfl, hrest⟩
        rw [insert_name, hname]
        rcases hrest with rfl | hrest
        · exact .inl ⟨[], hname ▸ rfl, .inl rfl⟩
        · rcases ih.mp hrest with hrest | ⟨-, hrest⟩
          · exact .inl ⟨rest, hname ▸ rfl, .inr hrest⟩
          · exact .inr ⟨List.cons_ne_nil _ _, .inr ⟨rest, rfl, hrest⟩⟩
      · rintro (⟨rest, rfl, hrest⟩ | ⟨hne, rfl | ⟨rest, rfl, hrest⟩⟩)
        · exact ⟨rest, by rw [insert_name], hrest.imp_right fun h => ih.mpr (.inl h)⟩
        · exact absurd rfl hne
        · refine ⟨rest, by rw [insert_name, hname], ?_⟩
          by_cases hnil : rest = []
          · exact .inl hnil
          · exact .inr (ih.mpr (.inr ⟨hnil, hrest⟩))
    obtain ⟨before, child, after, hsplit, hname, -, hinsert⟩ | ⟨-, -, hinsert⟩ :=
      insert_cases isDirectory tree name more
    · rw [hinsert, mem_ways_iff, mem_ways_iff, hsplit]
      simp only [List.mem_append, List.mem_cons, or_and_right, exists_or, exists_eq_left,
        hchild child hname, or_assoc]
      rw [or_comm (a := way ≠ [] ∧ way <+: name :: more)]
    · have hnew : (tree.fresh isDirectory name).Enters way → way ≠ [] ∧ way <+: name :: more := by
        rw [enters_fresh]
        rintro rfl
        exact ⟨List.cons_ne_nil _ _, more, rfl⟩
      rw [hinsert, mem_ways_iff, mem_ways_iff]
      simp only [List.mem_append, List.mem_singleton, or_and_right, exists_or, exists_eq_left,
        hchild (tree.fresh isDirectory name) rfl]
      rw [or_iff_right_of_imp hnew]

/-- **An insertion adds as many nodes as were missing.** -/
theorem count_insert (isDirectory : String → Bool) (tree : FileTree) (way : List String) :
    (tree.insert isDirectory way).count = tree.count + tree.missing way := by
  induction way generalizing tree with
  | nil => rfl
  | cons name more ih =>
    obtain ⟨before, child, after, hsplit, -, hmissing, hinsert⟩ | ⟨-, hmissing, hinsert⟩ :=
      insert_cases isDirectory tree name more
    · rw [hinsert, hmissing, count_eq, count_eq tree, hsplit]
      simp only [countAll_append, countAll, ih child]
      omega
    · have hleaf : (tree.fresh isDirectory name).missing more = more.length := by
        cases more <;> rfl
      have hzero : (tree.fresh isDirectory name).count = 0 := rfl
      rw [hinsert, hmissing, count_eq, count_eq tree]
      simp only [countAll_append, countAll, ih, hleaf, hzero]
      omega

/-! ### Grown trees -/

/-- A tree in which siblings have different names, and in which each node has the path that its name
has in its parent and is a directory if this is one's path. -/
inductive Grown (isDirectory : String → Bool) : FileTree → Prop where
  /-- A node with grown children. -/
  | node {tree : FileTree} (nodup : (tree.children.map (·.name)).Nodup)
      (paths : ∀ child ∈ tree.children, child.path = childPath tree.path child.name)
      (kinds : ∀ child ∈ tree.children, child.isDirectory = isDirectory child.path)
      (children : ∀ child ∈ tree.children, Grown isDirectory child) : Grown isDirectory tree

theorem grown_of_childless (isDirectory : String → Bool) {tree : FileTree} (h : tree.children = []) :
    tree.Grown isDirectory := by
  refine .node ?_ ?_ ?_ ?_ <;> simp [h]

theorem Grown.nodup_names {isDirectory : String → Bool} {tree : FileTree}
    (h : tree.Grown isDirectory) : (tree.children.map (·.name)).Nodup := by
  cases h
  assumption

/-- A grown tree stays one when its children change to others with different names, of which one is new
and in its place. -/
theorem Grown.withChildren {isDirectory : String → Bool} {tree new : FileTree}
    (h : tree.Grown isDirectory) {children : List FileTree} (hnodup : (children.map (·.name)).Nodup)
    (hmem : ∀ child ∈ children, child = new ∨ child ∈ tree.children) (hnew : new.Grown isDirectory)
    (hpath : new.path = childPath tree.path new.name)
    (hkind : new.isDirectory = isDirectory new.path) :
    Grown isDirectory { tree with children } := by
  cases h with
  | node _ paths kinds grown =>
    refine .node hnodup ?_ ?_ ?_
    · intro child hchild
      rcases hmem child hchild with rfl | hold
      · exact hpath
      · exact paths child hold
    · intro child hchild
      rcases hmem child hchild with rfl | hold
      · exact hkind
      · exact kinds child hold
    · intro child hchild
      rcases hmem child hchild with rfl | hold
      · exact hnew
      · exact grown child hold

/-- An insertion keeps a tree grown. -/
theorem Grown.insert {isDirectory : String → Bool} {tree : FileTree} (h : tree.Grown isDirectory)
    (way : List String) : (tree.insert isDirectory way).Grown isDirectory := by
  induction way generalizing tree with
  | nil => exact h
  | cons name more ih =>
    have hgrown := h
    cases h with
    | node nodup paths kinds grown =>
      obtain ⟨before, child, after, hsplit, -, -, hinsert⟩ | ⟨hnone, -, hinsert⟩ :=
        insert_cases isDirectory tree name more
      · have hchild : child ∈ tree.children := by simp [hsplit]
        rw [hinsert]
        refine hgrown.withChildren ?_ ?_ (ih (grown child hchild)) ?_ ?_
        · rw [hsplit] at nodup
          simpa using nodup
        · intro other hother
          rw [List.mem_append, List.mem_cons] at hother
          rw [hsplit, List.mem_append, List.mem_cons]
          rcases hother with hbefore | hnew | hafter
          · exact .inr (.inl hbefore)
          · exact .inl hnew
          · exact .inr (.inr (.inr hafter))
        · rw [insert_path, insert_name]
          exact paths child hchild
        · rw [insert_isDirectory, insert_path]
          exact kinds child hchild
      · have hfresh : (tree.fresh isDirectory name).Grown isDirectory :=
          grown_of_childless isDirectory rfl
        rw [hinsert]
        refine hgrown.withChildren ?_ ?_ (ih hfresh) ?_ ?_
        · rw [List.map_append, List.nodup_append_comm]
          refine List.nodup_cons.mpr ⟨?_, nodup⟩
          show ((tree.fresh isDirectory name).insert isDirectory more).name ∉ _
          rw [insert_name]
          exact hnone
        · intro other hother
          rcases List.mem_append.mp hother with hold | hnew
          · exact .inr hold
          · exact .inl (List.mem_singleton.mp hnew)
        · rw [insert_path, insert_name]
          rfl
        · rw [insert_isDirectory, insert_path]
          rfl

/-- In a grown tree different nodes are reached by different ways. -/
theorem Grown.nodup_ways {isDirectory : String → Bool} {tree : FileTree}
    (h : tree.Grown isDirectory) : tree.ways.Nodup := by
  induction h with
  | @node tree nodup paths kinds children ih =>
    have hways : tree.ways =
        tree.children.flatMap fun child => [child.name] :: child.ways.map (child.name :: ·) := by
      rw [ways, nodes_eq, List.map_flatMap]
      simp [ways, Function.comp_def]
    rw [hways, List.nodup_flatMap]
    refine ⟨fun child hchild => List.nodup_cons.mpr ⟨?_, ?_⟩, ?_⟩
    · intro hmem
      obtain ⟨way, hway, heq⟩ := List.mem_map.mp hmem
      exact ne_nil_of_mem_ways hway (by simpa using heq)
    · exact (ih child hchild).map fun _ _ h => (List.cons.inj h).2
    · refine (List.pairwise_map.mp nodup).imp fun {first second} hne => ?_
      intro way hfirst hsecond
      have hhead : ∀ child : FileTree, way ∈ [child.name] :: child.ways.map (child.name :: ·) →
          way.head? = some child.name := by
        intro child hmem
        rcases List.mem_cons.mp hmem with rfl | hmem
        · rfl
        · obtain ⟨rest, -, rfl⟩ := List.mem_map.mp hmem
          rfl
      exact hne (Option.some.inj ((hhead first hfirst).symm.trans (hhead second hsecond)))

/-- A node below a grown tree is one of its children, or below one. -/
theorem Grown.of_mem_nodes {isDirectory : String → Bool} {tree : FileTree}
    (h : tree.Grown isDirectory) {way : List String} {node : FileTree}
    (hmem : (way, node) ∈ tree.nodes) :
    node.Grown isDirectory ∧ node.isDirectory = isDirectory node.path ∧
      node.path = way.foldl childPath tree.path := by
  induction h generalizing way with
  | @node tree nodup paths kinds children ih =>
    obtain ⟨child, hchild, ⟨rfl, rfl⟩ | ⟨rest, rfl, hrest⟩⟩ := mem_nodes.mp hmem
    · exact ⟨children _ hchild, kinds _ hchild, paths _ hchild⟩
    · obtain ⟨hgrown, hkind, hpath⟩ := ih child hchild hrest
      refine ⟨hgrown, hkind, ?_⟩
      rw [hpath, paths child hchild]
      rfl

/-- The ways of a grown tree that begin with a child's name lead through this child. -/
theorem Grown.cons_mem_ways {isDirectory : String → Bool} {tree child : FileTree}
    (h : tree.Grown isDirectory) (hchild : child ∈ tree.children) {rest : List String}
    (hrest : rest ≠ []) (hmem : child.name :: rest ∈ tree.ways) : rest ∈ child.ways := by
  obtain ⟨other, hother, more, heq, hmore⟩ := mem_ways_iff.mp hmem
  obtain ⟨hname, rfl⟩ := List.cons.inj heq
  cases List.inj_on_of_nodup_map h.nodup_names hchild hother hname
  exact hmore.resolve_left hrest

/-- A node with a way that goes on from it has children. -/
theorem Grown.children_ne_nil {isDirectory : String → Bool} {tree : FileTree}
    (h : tree.Grown isDirectory) {way more : List String} {node : FileTree}
    (hmem : (way, node) ∈ tree.nodes) (hmore : more ≠ []) (hways : way ++ more ∈ tree.ways) :
    node.children ≠ [] := by
  have hgrown := h
  induction h generalizing way with
  | @node tree nodup paths kinds children ih =>
    obtain ⟨child, hchild, ⟨rfl, rfl⟩ | ⟨rest, rfl, hrest⟩⟩ := mem_nodes.mp hmem
    · obtain ⟨grandchild, hgrandchild, -⟩ :=
        mem_ways_iff.mp (hgrown.cons_mem_ways hchild hmore hways)
      exact List.ne_nil_of_mem hgrandchild
    · refine ih child hchild hrest ?_ (children child hchild)
      exact hgrown.cons_mem_ways hchild (by simp [hmore]) hways

/-! ### Insertion as long as there is room -/

theorem count_le_count_foldl (isDirectory : String → Bool) (tree : FileTree)
    (news : List (List String)) :
    tree.count ≤ (news.foldl (FileTree.insert isDirectory) tree).count := by
  induction news generalizing tree with
  | nil => exact Nat.le_refl _
  | cons way more ih =>
    have hone := count_insert isDirectory tree way
    have hmore := ih (tree.insert isDirectory way)
    rw [List.foldl_cons]
    omega

/-- **Insertion stops at the first way that does not fit in**: what has been inserted is a beginning of
the list, it fits in, and no longer one does. -/
theorem exists_insertWhileFits (isDirectory : String → Bool) (tree : FileTree) {room : Int}
    (hroom : 0 ≤ room) (news : List (List String)) :
    ∃ k ≤ news.length,
      tree.insertWhileFits isDirectory room news =
        (news.take k).foldl (FileTree.insert isDirectory) tree ∧
      (((news.take k).foldl (FileTree.insert isDirectory) tree).count : Int) ≤ tree.count + room ∧
      ∀ j, k < j → j ≤ news.length →
        tree.count + room < ((news.take j).foldl (FileTree.insert isDirectory) tree).count := by
  induction news generalizing tree room with
  | nil =>
    refine ⟨0, Nat.le_refl 0, rfl, ?_, fun j hj hlength => ?_⟩
    · rw [List.take_nil, List.foldl_nil]
      omega
    · rw [List.length_nil] at hlength
      omega
  | cons way more ih =>
    have hcount := count_insert isDirectory tree way
    unfold insertWhileFits
    dsimp only
    split
    · rename_i hfull
      -- This way does not fit in, and whatever is inserted after it only adds nodes.
      refine ⟨0, Nat.zero_le _, rfl, ?_, fun j hj hlength => ?_⟩
      · rw [List.take_zero, List.foldl_nil]
        omega
      · obtain ⟨j, rfl⟩ := Nat.exists_eq_add_one.mpr hj
        have hgrows := count_le_count_foldl isDirectory (tree.insert isDirectory way) (more.take j)
        rw [List.take_succ_cons, List.foldl_cons]
        omega
    · rename_i hfits
      obtain ⟨k, hk, heq, hle, hgreatest⟩ :=
        ih (tree.insert isDirectory way) (Int.sub_nonneg_of_le (Int.not_lt.mp hfits))
      refine ⟨k + 1, Nat.succ_le_succ hk, heq, ?_, fun j hj hlength => ?_⟩
      · rw [List.take_succ_cons, List.foldl_cons]
        omega
      · obtain ⟨j, rfl⟩ := Nat.exists_eq_add_one.mpr (Nat.zero_lt_of_lt hj)
        have hlater := hgreatest j (by omega) (by simpa using hlength)
        rw [List.take_succ_cons, List.foldl_cons]
        omega

end FileTree

end Vicinity
