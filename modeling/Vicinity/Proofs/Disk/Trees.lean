import Vicinity.Disk.Files
import Vicinity.Proofs.Path.Writing

/-!
# Trees of directories and files

The type of disk entries allows for directories that no file system has: with one name twice, with an
empty name, with a name that holds a slash or is one or two dots. A tree is well formed if it has none
of these. The empty disk is, and writing and deleting keep it so. In a well-formed tree a way of names
leads to at most one entry, and following a path that a file system would follow finds it.

## What is proved

* `WellFormed.put`, `WellFormed.remove`, `WellFormed.follow`: what is written, what is left and what is
  found is well formed.
* `Holds.follow`: following names finds what a tree holds there.
* `readText_put`: a file that has been written can be read again.
* `readText_eq_notText_iff`: when a file cannot be read for its bytes.
-/

namespace Vicinity

/-- A name that an entry of a directory can have. -/
structure IsEntryName (name : String) : Prop where
  ne_empty : name ≠ ""
  slash_not_mem : '/' ∉ name.toList
  ne_dot : name ≠ "."
  ne_dots : name ≠ ".."

/-! ### Lookup in directories -/

theorem lookup_of_mem {β : Type} {children : List (String × β)} (h : (children.map (·.1)).Nodup)
    {name : String} {entry : β} (hmem : (name, entry) ∈ children) :
    children.lookup name = some entry := by
  induction children with
  | nil => cases hmem
  | cons first more ih =>
    obtain ⟨other, child⟩ := first
    rw [List.map_cons, List.nodup_cons] at h
    rcases List.mem_cons.mp hmem with heq | hmem
    · cases heq
      exact List.lookup_cons_self
    · have hne : name ≠ other := fun heq => h.1 (heq ▸ List.mem_map.mpr ⟨_, hmem, rfl⟩)
      rw [List.lookup_cons, beq_false_of_ne hne]
      exact ih h.2 hmem

theorem mem_of_lookup {β : Type} {children : List (String × β)} {name : String} {entry : β}
    (h : children.lookup name = some entry) : (name, entry) ∈ children := by
  obtain ⟨before, after, rfl, -⟩ := List.lookup_eq_some_iff.mp h
  exact List.mem_append_right _ List.mem_cons_self

namespace DiskEntry

theorem lookup_setChild_self (children : List (String × DiskEntry)) (name : String)
    (entry : DiskEntry) : (setChild children name entry).lookup name = some entry := by
  induction children with
  | nil => exact List.lookup_cons_self
  | cons first more ih =>
    obtain ⟨other, child⟩ := first
    unfold setChild
    split
    · exact List.lookup_cons_self
    · rename_i hne
      rw [List.lookup_cons, beq_false_of_ne (Ne.symm hne)]
      exact ih

theorem mem_setChild {children : List (String × DiskEntry)} {name : String} {entry : DiskEntry}
    {child : String × DiskEntry} (h : child ∈ setChild children name entry) :
    child = (name, entry) ∨ child ∈ children := by
  induction children with
  | nil => exact .inl (List.mem_singleton.mp h)
  | cons first more ih =>
    obtain ⟨other, old⟩ := first
    unfold setChild at h
    split at h
    · rcases List.mem_cons.mp h with h | h
      · exact .inl h
      · exact .inr (List.mem_cons_of_mem _ h)
    · rcases List.mem_cons.mp h with h | h
      · exact .inr (h ▸ List.mem_cons_self)
      · exact (ih h).imp_right (List.mem_cons_of_mem _)

theorem nodup_setChild {children : List (String × DiskEntry)} (h : (children.map (·.1)).Nodup)
    (name : String) (entry : DiskEntry) : ((setChild children name entry).map (·.1)).Nodup := by
  induction children with
  | nil => exact List.pairwise_singleton _ _
  | cons first more ih =>
    obtain ⟨other, old⟩ := first
    rw [List.map_cons, List.nodup_cons] at h
    unfold setChild
    split
    · rename_i heq
      exact List.nodup_cons.mpr ⟨heq ▸ h.1, h.2⟩
    · rename_i hne
      refine List.nodup_cons.mpr ⟨fun hmem => ?_, ih h.2⟩
      obtain ⟨child, hchild, heq⟩ := List.mem_map.mp hmem
      rcases mem_setChild hchild with rfl | hchild
      · exact hne heq.symm
      · exact h.1 (List.mem_map.mpr ⟨child, hchild, heq⟩)

/-! ### Well-formed trees -/

/-- The directories of a tree have different names for their entries, all of them names that an entry
can have. -/
inductive WellFormed : DiskEntry → Prop where
  /-- A file. -/
  | file (bytes : ByteArray) : WellFormed (.file bytes)
  /-- A directory of well-formed trees. -/
  | directory {children : List (String × DiskEntry)} (nodup : (children.map (·.1)).Nodup)
      (names : ∀ child ∈ children, IsEntryName child.1)
      (entries : ∀ child ∈ children, WellFormed child.2) : WellFormed (.directory children)

theorem WellFormed.empty : WellFormed (.directory []) :=
  .directory List.nodup_nil (fun _ h => absurd h List.not_mem_nil)
    fun _ h => absurd h List.not_mem_nil

theorem WellFormed.lookup {children : List (String × DiskEntry)}
    (h : WellFormed (.directory children)) {name : String} {entry : DiskEntry}
    (hlook : children.lookup name = some entry) : entry.WellFormed := by
  cases h with
  | directory nodup names entries => exact entries _ (mem_of_lookup hlook)

theorem WellFormed.setChild {children : List (String × DiskEntry)}
    (h : WellFormed (.directory children)) {name : String} (hname : IsEntryName name)
    {entry : DiskEntry} (hentry : entry.WellFormed) :
    WellFormed (.directory (DiskEntry.setChild children name entry)) := by
  cases h with
  | directory nodup names entries =>
    refine .directory (nodup_setChild nodup name entry) (fun child hchild => ?_) fun child hchild => ?_
    · rcases mem_setChild hchild with rfl | hchild
      · exact hname
      · exact names child hchild
    · rcases mem_setChild hchild with rfl | hchild
      · exact hentry
      · exact entries child hchild

/-- Writing keeps a tree well formed. -/
theorem WellFormed.put {entry here : DiskEntry} (hentry : entry.WellFormed) {way : List String}
    (hway : ∀ name ∈ way, IsEntryName name) (hhere : here.WellFormed) :
    (DiskEntry.put entry way here).WellFormed := by
  induction way generalizing here with
  | nil => exact hentry
  | cons name more ih =>
    have hmore : ∀ {next : DiskEntry}, next.WellFormed → (DiskEntry.put entry more next).WellFormed :=
      ih fun other h => hway other (List.mem_cons_of_mem _ h)
    have hname := hway name List.mem_cons_self
    have hput : ∀ children, WellFormed (.directory children) →
        WellFormed (.directory (DiskEntry.setChild children name
          (DiskEntry.put entry more ((children.lookup name).getD (.directory []))))) := by
      intro children hchildren
      refine hchildren.setChild hname (hmore ?_)
      cases hlook : children.lookup name with
      | none => exact .empty
      | some next => exact hchildren.lookup hlook
    cases here with
    | file bytes => exact hput [] .empty
    | directory children => exact hput children hhere

/-- Deleting keeps a tree well formed. -/
theorem WellFormed.remove {here : DiskEntry} (hhere : here.WellFormed) {way : List String}
    (hway : ∀ name ∈ way, IsEntryName name) : (DiskEntry.remove way here).WellFormed := by
  induction way generalizing here with
  | nil => exact hhere
  | cons name more ih =>
    cases hhere with
    | file bytes => cases more <;> exact .file bytes
    | @directory children nodup names entries =>
      cases more with
      | nil =>
        refine .directory (nodup.sublist (List.filter_sublist.map _)) ?_ ?_
        · exact fun child h => names child (List.mem_filter.mp h).1
        · exact fun child h => entries child (List.mem_filter.mp h).1
      | cons next rest =>
        have hchildren : WellFormed (.directory children) := .directory nodup names entries
        unfold DiskEntry.remove
        cases hlook : children.lookup name with
        | none => exact hchildren
        | some entry =>
          exact hchildren.setChild (hway name List.mem_cons_self)
            (ih (hchildren.lookup hlook) fun other h => hway other (List.mem_cons_of_mem _ h))

theorem follow_cons (children : List (String × DiskEntry)) (above : List DiskEntry) (name : String)
    (more : List String) :
    (directory children).follow above (name :: more) =
      if name = ".." then
        match above with
        | [] => (directory children).follow [] more
        | parent :: rest => parent.follow rest more
      else match children.lookup name with
        | some next => next.follow (directory children :: above) more
        | none => .error .missing := rfl

/-- What a path leads to in a well-formed tree is well formed. -/
theorem WellFormed.follow {here : DiskEntry} (hhere : here.WellFormed) {above : List DiskEntry}
    (habove : ∀ entry ∈ above, entry.WellFormed) {way : List String} {found : DiskEntry}
    (h : here.follow above way = .ok found) : found.WellFormed := by
  induction way generalizing here above with
  | nil =>
    cases h
    exact hhere
  | cons name more ih =>
    cases here with
    | file bytes => cases h
    | directory children =>
      rw [follow_cons] at h
      split at h
      · cases above with
        | nil => exact ih hhere habove h
        | cons parent rest =>
          exact ih (habove parent List.mem_cons_self)
            (fun entry hentry => habove entry (List.mem_cons_of_mem _ hentry)) h
      · cases hlook : children.lookup name with
        | none =>
          rw [hlook] at h
          cases h
        | some next =>
          rw [hlook] at h
          refine ih (hhere.lookup hlook) (fun entry hentry => ?_) h
          rcases List.mem_cons.mp hentry with rfl | hentry
          · exact hhere
          · exact habove entry hentry

/-! ### Ways -/

/-- A tree holds an entry at the end of a way of names, none of them two dots. -/
inductive Holds : DiskEntry → List String → DiskEntry → Prop where
  /-- The tree itself. -/
  | here (entry : DiskEntry) : Holds entry [] entry
  /-- What a child holds. -/
  | child {children : List (String × DiskEntry)} {name : String} {next found : DiskEntry}
      {way : List String} (hname : name ≠ "..") (hlook : children.lookup name = some next)
      (h : Holds next way found) : Holds (.directory children) (name :: way) found

/-- Following names leads to what the tree holds there. -/
theorem Holds.follow {here found : DiskEntry} {way : List String} (h : here.Holds way found)
    (above : List DiskEntry) : here.follow above way = .ok found := by
  induction h generalizing above with
  | here entry => rfl
  | child hname hlook h ih =>
    rw [follow_cons, if_neg hname, hlook]
    exact ih _

/-- A way can be cut in two. -/
theorem Holds.of_append {here found : DiskEntry} {way more : List String}
    (h : here.Holds (way ++ more) found) : ∃ mid, here.Holds way mid ∧ mid.Holds more found := by
  induction way generalizing here with
  | nil => exact ⟨here, .here here, h⟩
  | cons name way ih =>
    cases h with
    | child hname hlook h =>
      obtain ⟨mid, hmid, hfound⟩ := ih h
      exact ⟨mid, .child hname hlook hmid, hfound⟩

/-- What has been put at the end of a way is there. -/
theorem holds_put (entry : DiskEntry) {way : List String} (hway : ".." ∉ way) (here : DiskEntry) :
    (put entry way here).Holds way entry := by
  induction way generalizing here with
  | nil => exact .here entry
  | cons name more ih =>
    rw [List.mem_cons, not_or] at hway
    exact .child (Ne.symm hway.1) (lookup_setChild_self _ _ _) (ih hway.2 _)

/-- A way that can be followed can be followed further. -/
theorem follow_append {here found : DiskEntry} {above : List DiskEntry} {way : List String}
    (h : here.follow above way = .ok found) :
    ∃ passed, ∀ more, here.follow above (way ++ more) = found.follow passed more := by
  induction way generalizing here above with
  | nil =>
    cases h
    exact ⟨above, fun _ => rfl⟩
  | cons name way ih =>
    cases here with
    | file bytes => cases h
    | directory children =>
      simp only [List.cons_append, follow_cons]
      rw [follow_cons] at h
      split at h
      · rename_i hdots
        simp only [if_pos hdots]
        cases above with
        | nil => exact ih h
        | cons parent rest => exact ih h
      · rename_i hdots
        simp only [if_neg hdots]
        cases hlook : children.lookup name with
        | none =>
          rw [hlook] at h
          cases h
        | some next =>
          rw [hlook] at h
          exact ih h

/-- Following names fails for the names, never for the bytes of a file. -/
theorem follow_ne_notText (names : List String) (here : DiskEntry) (above : List DiskEntry) :
    here.follow above names ≠ .error .notText := by
  induction names generalizing here above with
  | nil => simp [follow]
  | cons name names ih =>
    cases here with
    | file bytes => simp [follow]
    | directory children =>
      unfold follow
      by_cases hname : name = ".."
      · cases above with
        | nil => simpa [hname] using ih (directory children) []
        | cons parent rest => simpa [hname] using ih parent rest
      · cases hchild : children.lookup name with
        | none => simp [hname, hchild]
        | some next => simpa [hname, hchild] using ih next (directory children :: above)

end DiskEntry

/-! ### Disks -/

namespace Disk

variable {disk : Disk}

theorem segmentsOf_of_isAbsolute {path : String} (h : (Path.parse path).isAbsolute) :
    disk.segmentsOf path = (Path.parse path).segments := if_pos h

/-- Writing to an absolute path without double dots keeps a disk well formed. -/
theorem wellFormed_put (h : disk.root.WellFormed) {entry : DiskEntry} (hentry : entry.WellFormed)
    {path : String} (habsolute : (Path.parse path).isAbsolute)
    (hdots : ".." ∉ (Path.parse path).segments) : (disk.put path entry).root.WellFormed := by
  refine hentry.put (fun name hname => ?_) h
  rw [segmentsOf_of_isAbsolute habsolute] at hname
  obtain ⟨hempty, hslash, hdot⟩ := Path.mem_segmentsOf hname
  exact ⟨hempty, hslash, hdot, fun heq => hdots (heq ▸ hname)⟩

/-- So does deleting at such a path. -/
theorem wellFormed_delete (h : disk.root.WellFormed) {path : String}
    (habsolute : (Path.parse path).isAbsolute) (hdots : ".." ∉ (Path.parse path).segments) :
    (disk.delete path).root.WellFormed := by
  refine h.remove fun name hname => ?_
  rw [segmentsOf_of_isAbsolute habsolute] at hname
  obtain ⟨hempty, hslash, hdot⟩ := Path.mem_segmentsOf hname
  exact ⟨hempty, hslash, hdot, fun heq => hdots (heq ▸ hname)⟩

/-- What a well-formed disk has at a path is well formed. -/
theorem wellFormed_entry (h : disk.root.WellFormed) {path : String} {entry : DiskEntry}
    (hentry : disk.entry path = .ok entry) : entry.WellFormed :=
  h.follow (fun _ hmem => absurd hmem List.not_mem_nil) hentry

/-- What has been put at a path is there. -/
theorem entry_put {path : String} (h : ".." ∉ disk.segmentsOf path) (entry : DiskEntry) :
    (disk.put path entry).entry path = .ok entry :=
  (DiskEntry.holds_put entry h disk.root).follow []

/-- The text of a file that has been written is what its bytes write. -/
theorem readText_put {path : String} (h : ".." ∉ disk.segmentsOf path) (bytes : ByteArray) :
    (disk.put path (.file bytes)).readText path = decode bytes := by
  rw [readText, entry_put h]

/-- A text without carriage returns is read as it was written. -/
theorem decode_toUTF8 {text : String} (h : '\r' ∉ text.toList) : decode text.toUTF8 = .ok text := by
  have hread : String.fromUTF8? text.toUTF8 = some text := dif_pos text.isValidUTF8
  rw [decode, hread]
  simp [h]

/-- The file at a path holds bytes that are no text. -/
def HoldsNoText (disk : Disk) (path : String) : Prop :=
  ∃ bytes, disk.entry path = .ok (.file bytes) ∧ String.fromUTF8? bytes = none

theorem readText_eq_notText_iff {path : String} :
    disk.readText path = .error .notText ↔ disk.HoldsNoText path := by
  have hdecode : ∀ bytes, decode bytes = .error .notText ↔ String.fromUTF8? bytes = none := by
    intro bytes
    unfold decode
    cases String.fromUTF8? bytes <;> simp
  unfold readText HoldsNoText
  cases hentry : disk.entry path with
  | error e =>
    have hne : e ≠ .notText := by
      rintro rfl
      exact DiskEntry.follow_ne_notText _ _ _ hentry
    simpa using hne
  | ok found =>
    cases found with
    | file bytes => simpa using hdecode bytes
    | directory children => simp

/-- What stands below a path. -/
theorem entry_below {p : Path} (hp : p.Read) (habsolute : p.isAbsolute) {top found : DiskEntry}
    (htop : disk.entry p.render = .ok top) {way : List String} (hway : ∀ name ∈ way, IsEntryName name)
    (h : top.Holds way found) : disk.entry (Path.mk p.slashes (p.segments ++ way)).render = .ok found := by
  have hread : (Path.mk p.slashes (p.segments ++ way)).Read := by
    refine ⟨hp.slashes_le, fun name hname => ?_⟩
    rcases List.mem_append.mp hname with hname | hname
    · exact hp.segments name hname
    · exact ⟨(hway name hname).ne_empty, (hway name hname).slash_not_mem, (hway name hname).ne_dot⟩
  have hparse := Path.parse_render hread
  rw [entry, segmentsOf_of_isAbsolute (by rw [Path.parse_render hp]; exact habsolute),
    Path.parse_render hp] at htop
  rw [entry, segmentsOf_of_isAbsolute (by rw [hparse]; exact habsolute), hparse]
  obtain ⟨passed, hpassed⟩ := DiskEntry.follow_append htop
  rw [hpassed way]
  exact h.follow passed

end Disk

end Vicinity
