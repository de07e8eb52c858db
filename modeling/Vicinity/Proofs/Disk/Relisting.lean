import Mathlib.Data.List.Nodup
import Vicinity.Proofs.Disk.Files

/-!
# The order of a directory's entries

The entries of a directory come in an order of the file system's own. Two trees that differ in nothing but
this order, in any of their directories, have the same files, and the walk over them is the same: it takes
the names of each directory in order.

## What is proved

* `WellFormed.relisted_of_perm`: entries in another order make a relisted directory.
* `Relisted.symm`, `Relisted.follow`: a path leads to the same entry, relisted, or to none in both trees.
* `Relisted.walk_eq`, `Disk.files_relisted`: the walk and the files of a workspace do not depend on the order.
-/

namespace Vicinity

/-- Blocks with different names are joined in one order only. -/
theorem joinByName_congr {blocks more : List (String × List String)} (h : blocks.Perm more)
    (hnodup : (blocks.map (·.1)).Nodup) : joinByName blocks = joinByName more := by
  have hperm := (List.mergeSort_perm blocks fun a b => decide (a.1 ≤ b.1)).trans
    (h.trans (List.mergeSort_perm more fun a b => decide (a.1 ≤ b.1)).symm)
  rw [joinByName, hperm.eq_of_pairwise (fun a b ha hb hab hba => ?_)
    (pairwise_mergeSort_by (·.1) blocks) (pairwise_mergeSort_by (·.1) more), joinByName]
  -- The order compares names only, and is antisymmetric on blocks because their names differ.
  have hmem : b ∈ blocks := h.mem_iff.mpr (List.mem_mergeSort.mp hb)
  exact List.inj_on_of_nodup_map hnodup (List.mem_mergeSort.mp ha) hmem (String.le_antisymm hab hba)

namespace DiskEntry

/-- The same tree with the entries of its directories in other orders. -/
inductive Relisted : DiskEntry → DiskEntry → Prop where
  /-- A file. -/
  | file (bytes : ByteArray) : Relisted (.file bytes) (.file bytes)
  /-- A directory: the names are the same, and so are the entries with these names, relisted. -/
  | directory {children others : List (String × DiskEntry)}
      (names : (children.map (·.1)).Perm (others.map (·.1)))
      (entries : ∀ name entry other, (name, entry) ∈ children → (name, other) ∈ others →
        Relisted entry other) : Relisted (.directory children) (.directory others)

section

variable {entry other : DiskEntry} {children others : List (String × DiskEntry)}

theorem Relisted.symm (h : entry.Relisted other) : other.Relisted entry := by
  induction h with
  | file bytes => exact .file bytes
  | directory names _ ih =>
    exact .directory names.symm fun name entry other hentry hother => ih name other entry hother hentry

theorem WellFormed.relisted_self (h : entry.WellFormed) : entry.Relisted entry := by
  induction h with
  | file bytes => exact .file bytes
  | directory nodup _ _ ih =>
    refine .directory (.refl _) fun name entry other hentry hother => ?_
    have hsame := (lookup_of_mem nodup hentry).symm.trans (lookup_of_mem nodup hother)
    cases hsame
    exact ih _ hentry

/-- A directory that lists its entries in another order is the same one. -/
theorem WellFormed.relisted_of_perm (h : WellFormed (.directory children))
    (hperm : children.Perm others) : Relisted (.directory children) (.directory others) := by
  cases h with
  | directory nodup _ entries =>
    refine .directory (hperm.map _) fun name entry other hentry hother => ?_
    have hmem := hperm.mem_iff.mpr hother
    have hsame := (lookup_of_mem nodup hentry).symm.trans (lookup_of_mem nodup hmem)
    cases hsame
    exact (entries _ hentry).relisted_self

/-- Each entry of a directory is an entry of the relisted one. -/
theorem Relisted.exists_mem (h : Relisted (.directory children) (.directory others)) {name : String}
    (hmem : (name, entry) ∈ children) : ∃ other, (name, other) ∈ others ∧ entry.Relisted other := by
  cases h with
  | directory names entries =>
    have hname : name ∈ others.map (·.1) := names.mem_iff.mp (List.mem_map_of_mem hmem)
    obtain ⟨⟨_, other⟩, hother, rfl⟩ := List.mem_map.mp hname
    exact ⟨other, hother, entries _ _ _ hmem hother⟩

theorem Relisted.lookup (h : Relisted (.directory children) (.directory others)) {name : String}
    (hlook : children.lookup name = some entry) :
    ∃ other, others.lookup name = some other ∧ entry.Relisted other := by
  cases h with
  | directory names entries =>
    have hmem := mem_of_lookup hlook
    have hname : name ∈ others.map (·.1) := names.mem_iff.mp (List.mem_map_of_mem hmem)
    cases hother : others.lookup name with
    | none =>
      obtain ⟨child, hchild, rfl⟩ := List.mem_map.mp hname
      exact absurd rfl (bne_iff_ne.mp (List.lookup_eq_none_iff.mp hother child hchild))
    | some other => exact ⟨other, rfl, entries _ _ _ hmem (mem_of_lookup hother)⟩

/-- **A path leads to the same entry**, relisted. -/
theorem Relisted.follow (h : entry.Relisted other) {above beyond : List DiskEntry}
    (habove : above.Forall₂ Relisted beyond) {way : List String} {found : DiskEntry}
    (hfound : entry.follow above way = .ok found) :
    ∃ same, other.follow beyond way = .ok same ∧ found.Relisted same := by
  induction way generalizing entry other above beyond with
  | nil =>
    cases hfound
    exact ⟨other, rfl, h⟩
  | cons name more ih =>
    cases h with
    | file bytes => cases hfound
    | @directory children others names entries =>
      have hhere : Relisted (.directory children) (.directory others) := .directory names entries
      rw [follow_cons] at hfound ⊢
      by_cases hdots : name = ".."
      · rw [if_pos hdots] at hfound ⊢
        cases habove with
        | nil => exact ih hhere .nil hfound
        | cons hparent hrest => exact ih hparent hrest hfound
      · rw [if_neg hdots] at hfound ⊢
        cases hlook : children.lookup name with
        | none =>
          rw [hlook] at hfound
          cases hfound
        | some next =>
          rw [hlook] at hfound
          obtain ⟨same, hsame, hnext⟩ := hhere.lookup hlook
          rw [hsame]
          exact ih hnext (.cons hhere habove) hfound

/-! ### The walk -/

theorem fileNames_sublist (children : List (String × DiskEntry)) :
    (fileNames children).Sublist (children.map (·.1)) := by
  induction children with
  | nil => exact .slnil
  | cons child more ih =>
    obtain ⟨name, _ | _⟩ := child
    · exact ih.cons_cons name
    · exact ih.cons name

theorem names_walkDirectories_sublist (globs : List Glob) (at_ : String)
    (children : List (String × DiskEntry)) :
    ((walkDirectories globs at_ children).map (·.1)).Sublist (children.map (·.1)) := by
  induction children with
  | nil => exact .slnil
  | cons child more ih =>
    obtain ⟨name, _ | below⟩ := child
    · exact ih.cons name
    · unfold walkDirectories
      dsimp only
      split
      · exact ih.cons name
      · exact ih.cons_cons name

theorem nodup_fileNames (h : (children.map (·.1)).Nodup) : (fileNames children).Nodup :=
  h.sublist (fileNames_sublist children)

theorem Relisted.fileNames_subset (h : Relisted (.directory children) (.directory others)) :
    fileNames children ⊆ fileNames others := by
  intro name hname
  obtain ⟨bytes, hmem⟩ := mem_fileNames.mp hname
  obtain ⟨other, hother, hrelisted⟩ := h.exists_mem hmem
  cases hrelisted
  exact mem_fileNames.mpr ⟨bytes, hother⟩

theorem Relisted.walkDirectories_subset (h : Relisted (.directory children) (.directory others))
    {globs : List Glob} {at_ : String}
    (hwalk : ∀ name entry other, (name, entry) ∈ children → (name, other) ∈ others →
      walk globs (inDirectory at_ name) entry = walk globs (inDirectory at_ name) other) :
    walkDirectories globs at_ children ⊆ walkDirectories globs at_ others := by
  intro block hblock
  obtain ⟨name, below, hmem, hkept, rfl⟩ := mem_walkDirectories.mp hblock
  obtain ⟨other, hother, hrelisted⟩ := h.exists_mem hmem
  have hsame := hwalk name _ _ hmem hother
  cases hrelisted with
  | directory => exact mem_walkDirectories.mpr ⟨name, _, hother, hkept, by rw [hsame]⟩

/-- **The walk does not depend on the order of entries.** -/
theorem Relisted.walk_eq (h : entry.Relisted other) (hentry : entry.WellFormed) (globs : List Glob)
    (at_ : String) : walk globs at_ entry = walk globs at_ other := by
  induction h generalizing at_ with
  | file bytes => rfl
  | @directory children others names entries ih =>
    have hhere : Relisted (.directory children) (.directory others) := .directory names entries
    cases hentry with
    | directory nodup _ hentries =>
      have hwalk : ∀ name entry other, (name, entry) ∈ children → (name, other) ∈ others →
          walk globs (inDirectory at_ name) entry = walk globs (inDirectory at_ name) other :=
        fun name entry other hmem hother => ih name entry other hmem hother (hentries _ hmem) _
      have hnodup : (others.map (·.1)).Nodup := names.nodup_iff.mp nodup
      have hfiles : (fileNames children).Perm (fileNames others) := by
        rw [List.perm_ext_iff_of_nodup (nodup_fileNames nodup) (nodup_fileNames hnodup)]
        exact fun name => ⟨fun hname => hhere.fileNames_subset hname,
          fun hname => hhere.symm.fileNames_subset hname⟩
      have hkeys := nodup.sublist (names_walkDirectories_sublist globs at_ children)
      have hkeys' := hnodup.sublist (names_walkDirectories_sublist globs at_ others)
      have hblocks : (walkDirectories globs at_ children).Perm (walkDirectories globs at_ others) := by
        rw [List.perm_ext_iff_of_nodup (hkeys.of_map _) (hkeys'.of_map _)]
        exact fun block => ⟨fun hblock => hhere.walkDirectories_subset hwalk hblock,
          fun hblock => hhere.symm.walkDirectories_subset
            (fun name entry other hmem hother => (hwalk name other entry hother hmem).symm) hblock⟩
      rw [walk, walk, sortedTexts_congr hfiles, joinByName_congr hblocks hkeys]

end

end DiskEntry

namespace Disk

variable {disk other : Disk}

/-- What a path leads to, if the entries of directories come in other orders. -/
theorem entry_relisted (hdirectory : disk.workingDirectory = other.workingDirectory)
    (h : disk.root.Relisted other.root) {path : String} {found : DiskEntry}
    (hfound : disk.entry path = .ok found) :
    ∃ same, other.entry path = .ok same ∧ found.Relisted same := by
  have hway : disk.segmentsOf path = other.segmentsOf path := by
    rw [segmentsOf, segmentsOf, hdirectory]
  rw [entry, ← hway]
  exact h.follow .nil hfound

/-- **The files of a workspace do not depend on the order of entries.** -/
theorem files_relisted (hdisk : disk.root.WellFormed)
    (hdirectory : disk.workingDirectory = other.workingDirectory) (h : disk.root.Relisted other.root)
    (root : String) (exclude : List String) (limit : Int) :
    disk.files root exclude limit = other.files root exclude limit := by
  unfold files
  cases htop : disk.entry root with
  | ok top =>
    obtain ⟨same, hsame, hrelisted⟩ := entry_relisted hdirectory h htop
    rw [hsame]
    dsimp only
    rw [hrelisted.walk_eq (wellFormed_entry hdisk htop)]
  | error e =>
    cases hother : other.entry root with
    | ok same =>
      obtain ⟨found, hfound, -⟩ := entry_relisted hdirectory.symm h.symm hother
      rw [htop] at hfound
      cases hfound
    | error e' => rfl

end Disk

end Vicinity
