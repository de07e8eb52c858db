import Mathlib.Data.List.Nodup
import Vicinity.Proofs.Candidate.Cursor
import Vicinity.Proofs.Candidate.Places
import Vicinity.Proofs.Disk.Trees
import Vicinity.Proofs.Provider.Memory

/-!
# Mentions of the identifier under the cursor

Asked about the references of a position, the provider of a workspace takes the identifier there and looks
for it in every file of its index. The two notions of a word agree: a position lies in one of the places
that are found exactly if the same identifier is read at it. So it does not matter at which of them one
asks.

## What is proved

* `identifierAt?_eq_some_iff`: an identifier is read at a position exactly if the position lies in a place
  of it; there is at most one such place (`StandsIn.unique`).
* `references_value`: what is found are the places in the file and in the files of the index.
* `references_are_mentions`: they are found once each, wherever among them one asks.
-/

namespace Vicinity

open Text

/-! ### Places of a word -/

/-- The identifier at a position of a file. -/
def Disk.identifierAt? (disk : Disk) (path : String) (position : Position) : Option String :=
  match disk.readText path with
  | .ok text =>
    if position.line < 0 then none
    else match (lines text.toList)[position.line.toNat]? with
      | some line => (Vicinity.identifierAt line position.column).map String.ofList
      | none => none
  | .error _ => none

/-- A position of a file lies in a location: at its start, or behind it and before its end. -/
structure Location.Covers (l : Location) (path : String) (p : Position) : Prop where
  path_eq : l.path = path
  start_le : l.span.start.le p
  lt_stop : p.lt l.span.stop

/-- A word stands as a whole in a file, at a location. -/
def Disk.StandsIn (disk : Disk) (word : List Char) (path : String) (l : Location) : Prop :=
  ∃ (text : String) (i : Nat) (line before after : List Char), disk.readText path = .ok text ∧
    (lines text.toList)[i]? = some line ∧ WholeAt line before word after ∧
    l = ⟨path, .of i before.length i (before.length + word.length)⟩

section

variable {disk : Disk} {word : List Char} {path : String} {l l' : Location} {p : Position}

theorem Disk.StandsIn.path_eq (h : disk.StandsIn word path l) : l.path = path := by
  obtain ⟨text, i, line, before, after, -, -, -, rfl⟩ := h
  rfl

/-- Where a location on a single line has a position. -/
theorem covers_of_line {i : Nat} {start stop : Int} :
    Location.Covers ⟨path, .of i start i stop⟩ path p ↔
      p.line = i ∧ start ≤ p.column ∧ p.column < stop := by
  constructor
  · rintro ⟨-, hstart, hstop⟩
    rw [Position.le_iff] at hstart
    rw [Position.lt_iff] at hstop
    simp only [Span.of] at hstart hstop
    omega
  · rintro ⟨hline, hstart, hstop⟩
    refine ⟨rfl, ?_, ?_⟩
    · rw [Position.le_iff]
      simp only [Span.of]
      omega
    · rw [Position.lt_iff]
      simp only [Span.of]
      omega

theorem Disk.StandsIn.covers_start (hword : word ≠ []) (h : disk.StandsIn word path l) :
    l.Covers path l.span.start := by
  obtain ⟨text, i, line, before, after, -, -, -, rfl⟩ := h
  have hpos := List.length_pos_iff.mpr hword
  exact covers_of_line.mpr ⟨rfl, Int.le_refl _, by simp only [Span.of]; omega⟩

/-- **An identifier is read where it stands.** -/
theorem Disk.identifierAt?_eq_some_iff {name : String} :
    disk.identifierAt? path p = some name ↔
      IsIdentifier name.toList ∧ ∃ l, disk.StandsIn name.toList path l ∧ l.Covers path p := by
  unfold Disk.identifierAt?
  constructor
  · intro h
    split at h
    · rename_i text htext
      split_ifs at h with hline
      split at h
      · rename_i line hget
        obtain ⟨word, hread, rfl⟩ := Option.map_eq_some_iff.mp h
        obtain ⟨hword, before, after, hwhole, hfrom, hto⟩ := identifierAt_eq_some_iff.mp hread
        rw [String.toList_ofList]
        refine ⟨hword, _, ⟨text, p.line.toNat, line, before, after, htext, hget, hwhole, rfl⟩, ?_⟩
        rw [covers_of_line]
        omega
      · cases h
    · cases h
  · rintro ⟨hword, l, ⟨text, i, line, before, after, htext, hget, hwhole, rfl⟩, hcovers⟩
    obtain ⟨hline, hfrom, hto⟩ := covers_of_line.mp hcovers
    have hread := identifierAt_eq_some_iff.mpr ⟨hword, before, after, hwhole, hfrom, hto⟩
    have hindex : p.line.toNat = i := by omega
    simp only [htext]
    rw [if_neg (by omega), hindex]
    simp [hget, hread]

/-- **A position lies in at most one place of a word.** -/
theorem Disk.StandsIn.unique (hword : IsIdentifier word) (h : disk.StandsIn word path l)
    (h' : disk.StandsIn word path l') (hcovers : l.Covers path p) (hcovers' : l'.Covers path p) :
    l = l' := by
  obtain ⟨text, i, line, before, after, htext, hget, hwhole, rfl⟩ := h
  obtain ⟨text', i', line', before', after', htext', hget', hwhole', rfl⟩ := h'
  obtain ⟨hline, hfrom, hto⟩ := covers_of_line.mp hcovers
  obtain ⟨hline', hfrom', hto'⟩ := covers_of_line.mp hcovers'
  obtain rfl : text = text' := Except.ok.inj (htext.symm.trans htext')
  obtain rfl : i = i' := by omega
  obtain rfl : line = line' := Option.some.inj (hget.symm.trans hget')
  obtain ⟨rfl, -⟩ := hwhole.unique hwhole' hword.chars hword.chars (k := p.column.toNat)
    (by omega) (by omega) (by omega) (by omega)
  rfl

end

namespace WorkspaceSettings

/-- The places at which a word stands as a whole in several files. -/
def mentions (disk : Disk) (word : List Char) (paths : List String) : List Location :=
  paths.flatMap fun path =>
    match disk.readText path with
    | .ok text => placesOf word path text
    | .error _ => []

section

variable {disk : Disk} {word : List Char} {path text : String} {l : Location}

theorem mem_placesOf (hword : IsIdentifier word) :
    l ∈ placesOf word path text ↔
      ∃ (i : Nat) (line before after : List Char), (lines text.toList)[i]? = some line ∧
        WholeAt line before word after ∧
        l = ⟨path, .of i before.length i (before.length + word.length)⟩ := by
  simp only [placesOf, List.mem_flatMap, List.mem_map, Prod.exists,
    List.mk_mem_zipIdx_iff_getElem?, mem_wholeWordColumns hword.chars hword.ne_nil]
  constructor
  · rintro ⟨line, i, hget, column, ⟨before, after, hwhole, rfl⟩, rfl⟩
    exact ⟨i, line, before, after, hget, hwhole, rfl⟩
  · rintro ⟨i, line, before, after, hget, hwhole, rfl⟩
    exact ⟨line, i, hget, before.length, ⟨before, after, hwhole, rfl⟩, rfl⟩

/-- **The mentions of a word are its places in the files.** -/
theorem mem_mentions (hword : IsIdentifier word) {paths : List String} :
    l ∈ mentions disk word paths ↔ ∃ path ∈ paths, disk.StandsIn word path l := by
  simp only [mentions, List.mem_flatMap]
  refine exists_congr fun path => and_congr_right fun _ => ?_
  constructor
  · intro h
    cases htext : disk.readText path with
    | error e =>
      rw [htext] at h
      cases h
    | ok text =>
      rw [htext] at h
      obtain ⟨i, line, before, after, hget, hwhole, rfl⟩ := (mem_placesOf hword).mp h
      exact ⟨text, i, line, before, after, htext, hget, hwhole, rfl⟩
  · rintro ⟨text, i, line, before, after, htext, hget, hwhole, rfl⟩
    rw [htext]
    exact (mem_placesOf hword).mpr ⟨i, line, before, after, hget, hwhole, rfl⟩

/-- The places of a word in a file begin where its positions are in the unit of code that is the file. -/
theorem map_start_placesOf (word : List Char) (path : String) (unit : CodeUnit)
    (hstart : unit.span.start = ⟨0, 0⟩) :
    (placesOf word path unit.text).map (·.span.start) = unit.positionsOf word := by
  simp [placesOf, CodeUnit.positionsOf, List.map_flatMap, hstart, Span.of, Function.comp_def]

theorem nodup_placesOf (word : List Char) (path text : String) : (placesOf word path text).Nodup := by
  have hordered := CodeUnit.pairwise_positionsOf ⟨"", "", path, text, ⟨⟨0, 0⟩, ⟨0, 0⟩⟩, none⟩ word
  rw [← map_start_placesOf word path _ rfl, List.pairwise_map] at hordered
  refine hordered.imp fun {a b} hlt heq => ?_
  rw [heq, Position.lt_iff] at hlt
  omega

/-- No place is mentioned twice. -/
theorem nodup_mentions {paths : List String} (hpaths : paths.Nodup) :
    (mentions disk word paths).Nodup := by
  have hpath : ∀ path, ∀ l ∈ (match disk.readText path with
      | .ok text => placesOf word path text
      | .error _ => []), l.path = path := by
    intro path l hl
    cases htext : disk.readText path with
    | error e =>
      rw [htext] at hl
      cases hl
    | ok text =>
      rw [htext] at hl
      simp only [placesOf, List.mem_flatMap, List.mem_map] at hl
      obtain ⟨_, -, _, -, rfl⟩ := hl
      rfl
  rw [mentions, List.nodup_flatMap]
  constructor
  · intro path _
    cases disk.readText path with
    | error e => exact List.nodup_nil
    | ok text => exact nodup_placesOf word path text
  · refine hpaths.imp fun {a b} hne l ha hb => ?_
    exact hne ((hpath a l ha).symm.trans (hpath b l hb))

end

/-! ### What is found -/

variable {settings : WorkspaceSettings}

/-- The files of the index of a disk. -/
def indexedFiles (settings : WorkspaceSettings) (disk : Disk) : List String :=
  (settings.index (.fresh disk)).1.files

/-- A file can be read for the index exactly if its text can be read. -/
theorem indexed_isOk {s : WorkspaceState} (hs : settings.Faithful s) (path : String) :
    (indexed path s).1.isOk = (s.disk.readText path).isOk := by
  obtain ⟨hread, hdisk, hfaithful⟩ := settled_read path s hs
  obtain ⟨hparse, -, -⟩ := settled_parse path _ hfaithful
  rw [read_fresh] at hread
  rw [hdisk, parse_fresh] at hparse
  rw [indexed_run, hread]
  cases htext : s.disk.readText path with
  | error e => rfl
  | ok text =>
    dsimp only
    rw [hparse, htext]
    cases symbolReaderOfPath? path <;> rfl

theorem files_extendIndex {s : WorkspaceState} (hs : settings.Faithful s) (paths : List String)
    (index : WorkspaceIndex) :
    (extendIndex paths index s).1.files = index.files ++ paths.filter fun path =>
      (symbolReaderOfPath? path).isSome && (s.disk.readText path).isOk := by
  induction paths generalizing s index with
  | nil => exact (List.append_nil _).symm
  | cons path more ih =>
    unfold extendIndex
    rw [List.filter_cons]
    by_cases hreader : (symbolReaderOfPath? path).isNone
    · have hnone : (symbolReaderOfPath? path).isSome = false := by simpa using hreader
      simp only [hnone, Bool.false_and, Bool.false_eq_true, if_false]
      rw [if_pos hreader]
      exact ih hs index
    · have hsome : (symbolReaderOfPath? path).isSome = true := by
        simpa [Option.isSome_iff_ne_none] using hreader
      obtain ⟨-, hdisk, hfaithful⟩ := settled_indexed path s hs
      have hok := indexed_isOk hs path
      rw [if_neg hreader, bind_run, hsome, Bool.true_and, ← hok]
      cases hfound : (indexed path s).1 with
      | error e =>
        have hmore := ih hfaithful index
        rw [hdisk] at hmore
        simpa [Except.isOk, Except.toBool] using hmore
      | ok symbols =>
        have hmore := ih hfaithful ⟨index.symbols ++ symbols, index.files ++ [path]⟩
        rw [hdisk] at hmore
        simpa [Except.isOk, Except.toBool] using hmore

/-- **The files of the index** are those among the files of the workspace for whose language there is a
reader and that can be read. -/
theorem mem_indexedFiles {disk : Disk} {path : String} :
    path ∈ settings.indexedFiles disk ↔ path ∈ settings.indexPaths disk ∧
      (symbolReaderOfPath? path).isSome = true ∧ (disk.readText path).isOk = true := by
  have hfaithful : settings.Faithful (.fresh disk) := faithful_fresh disk
  have hfiles := files_extendIndex hfaithful (settings.indexPaths disk) ⟨[], []⟩
  rw [indexedFiles, index_run, WorkspaceState.fresh_index]
  dsimp only [WorkspaceState.fresh_disk] at hfiles ⊢
  rw [hfiles, List.nil_append, List.mem_filter, Bool.and_eq_true]

theorem identifier_value {s : WorkspaceState} (hs : settings.Faithful s) {path name : String}
    {position : Position} (hname : s.disk.identifierAt? path position = some name) :
    (identifier path position s).1 = .ok (some name) := by
  have hread := (settled_read path s hs).1
  rw [read_fresh] at hread
  unfold identifier
  rw [bind_run, hread]
  unfold Disk.identifierAt? at hname
  cases htext : s.disk.readText path with
  | error e =>
    rw [htext] at hname
    cases hname
  | ok text =>
    rw [htext] at hname
    dsimp only at hname ⊢
    split_ifs at hname ⊢
    split at hname
    · rename_i line hget
      rw [hget, ← hname]
      rfl
    · cases hname

theorem placesIn_value {s : WorkspaceState} (hs : settings.Faithful s) (word : List Char)
    (paths : List String) : (placesIn word paths s).1 = mentions s.disk word paths := by
  induction paths generalizing s with
  | nil => rfl
  | cons path more ih =>
    obtain ⟨hread, hdisk, hfaithful⟩ := settled_read path s hs
    rw [read_fresh] at hread
    have hmore := ih hfaithful
    rw [hdisk] at hmore
    unfold placesIn
    rw [bind_run, hread, mentions, List.flatMap_cons, ← mentions, ← hmore]
    cases s.disk.readText path <;> rfl

/-- **The references of a position** are the places of its identifier in the file and in the files of the
index. -/
theorem references_value {s : WorkspaceState} (hs : settings.Faithful s) {path name : String}
    {position : Position} (hname : s.disk.identifierAt? path position = some name) :
    (settings.references path position s).1 =
      .ok (mentions s.disk name.toList (firstByKey id (path :: settings.indexedFiles s.disk))) := by
  obtain ⟨-, hdisk, hfaithful⟩ := (consults_identifier path position).settled s hs
  obtain ⟨hindex, hdisk', hfaithful'⟩ := consults_index.settled _ hfaithful
  rw [hdisk] at hindex hdisk'
  have hplaces := placesIn_value hfaithful' name.toList
    (firstByKey id (path :: settings.indexedFiles s.disk))
  rw [hdisk'] at hplaces
  unfold references
  rw [bind_run, identifier_value hs hname]
  dsimp only
  rw [bind_run, bind_run, hindex, ← hplaces]
  rfl

/-- One file of several may as well be named twice. -/
theorem perm_firstByKey {path : String} {paths : List String} (h : path ∈ paths) :
    (firstByKey id (path :: paths)).Perm (firstByKey id paths) := by
  have hnodup : ∀ paths : List String, (firstByKey id paths).Nodup := by
    intro paths
    simpa using nodup_firstByKey id paths
  have hmem : ∀ {paths : List String} {x : String}, x ∈ firstByKey id paths ↔ x ∈ paths :=
    mem_firstByKey_of_injective fun _ _ _ _ => id
  rw [List.perm_ext_iff_of_nodup (hnodup _) (hnodup _)]
  intro x
  rw [hmem, hmem, List.mem_cons]
  refine ⟨?_, .inr⟩
  rintro (rfl | hx)
  · exact h
  · exact hx

/-- From a file of the index the places in the files of the index are found. -/
theorem exists_references {disk : Disk} {s : WorkspaceState}
    (hs : settings.provider.Reaches (.fresh disk) s) {path name : String} {position : Position}
    (hpath : path ∈ settings.indexedFiles disk)
    (hname : disk.identifierAt? path position = some name) :
    ∃ found, (settings.references path position s).1 = .ok found ∧
      found.Perm (mentions disk name.toList (firstByKey id (settings.indexedFiles disk))) := by
  obtain ⟨hfaithful, rfl⟩ := faithful_of_reaches hs
  exact ⟨_, references_value hfaithful hname, (perm_firstByKey hpath).flatMap_right _⟩

/-- **References are mentions.** At a position of a file of the index where an identifier is read, each place
of it in the files of the index is found once: the same identifier is read at all positions in the places
that are found, and each position at which it is read lies in one of them. From each of these positions the
same places are found. -/
theorem references_are_mentions {disk : Disk} {s : WorkspaceState}
    (hs : settings.provider.Reaches (.fresh disk) s) {path name : String} {position : Position}
    (hpath : path ∈ settings.indexedFiles disk)
    (hname : disk.identifierAt? path position = some name) :
    ∃ found, (settings.references path position s).1 = .ok found ∧ found.Nodup ∧
      (∀ l ∈ found, l.path ∈ settings.indexedFiles disk ∧ l.Covers l.path l.span.start ∧
        ∀ p, l.Covers l.path p → disk.identifierAt? l.path p = some name) ∧
      (∀ file ∈ settings.indexedFiles disk, ∀ p, disk.identifierAt? file p = some name →
        ∃! l, l ∈ found ∧ l.Covers file p) ∧
      ∀ l ∈ found, ∀ p, l.Covers l.path p → ∀ t, settings.provider.Reaches (.fresh disk) t →
        ∃ again, (settings.references l.path p t).1 = .ok again ∧ again.Perm found := by
  obtain ⟨found, hfound, hperm⟩ := exists_references hs hpath hname
  obtain ⟨hword, -⟩ := Disk.identifierAt?_eq_some_iff.mp hname
  have hmem : ∀ l, l ∈ found ↔
      ∃ file ∈ settings.indexedFiles disk, disk.StandsIn name.toList file l := by
    intro l
    rw [hperm.mem_iff, mem_mentions hword]
    refine exists_congr fun file => and_congr_left fun _ => ?_
    exact mem_firstByKey_of_injective fun _ _ _ _ => id
  have hread : ∀ l ∈ found, l.path ∈ settings.indexedFiles disk ∧ l.Covers l.path l.span.start ∧
      ∀ p, l.Covers l.path p → disk.identifierAt? l.path p = some name := by
    intro l hl
    obtain ⟨file, hfile, hstands⟩ := (hmem l).mp hl
    obtain rfl := hstands.path_eq
    refine ⟨hfile, hstands.covers_start hword.ne_nil, fun p hp => ?_⟩
    exact Disk.identifierAt?_eq_some_iff.mpr ⟨hword, l, hstands, hp⟩
  refine ⟨found, hfound, ?_, hread, ?_, ?_⟩
  · rw [hperm.nodup_iff]
    exact nodup_mentions (by simpa using nodup_firstByKey id (settings.indexedFiles disk))
  · intro file hfile p hp
    obtain ⟨-, l, hstands, hcovers⟩ := Disk.identifierAt?_eq_some_iff.mp hp
    refine ⟨l, ⟨(hmem l).mpr ⟨file, hfile, hstands⟩, hcovers⟩, ?_⟩
    rintro l' ⟨hl', hcovers'⟩
    obtain ⟨file', -, hstands'⟩ := (hmem l').mp hl'
    obtain rfl : file' = file := hstands'.path_eq.symm.trans hcovers'.path_eq
    exact hstands'.unique hword hstands hcovers' hcovers
  · intro l hl p hp t ht
    obtain ⟨hfile, -, hsame⟩ := hread l hl
    obtain ⟨again, hagain, hperm'⟩ := exists_references ht hfile (hsame p hp)
    exact ⟨again, hagain, hperm'.trans hperm.symm⟩

/-- A workspace with a type and a file that mentions it. -/
def typeAndUse : Disk :=
  { root := .directory [("a.ts", .file "type A = B".toUTF8), ("b.ts", .file "let b: A".toUTF8)] }

theorem indexPaths_typeAndUse :
    (⟨"/", [], 2000⟩ : WorkspaceSettings).indexPaths typeAndUse = ["/a.ts", "/b.ts"] := by
  have hsorted : sortedTexts ["a.ts", "b.ts"] = ["a.ts", "b.ts"] :=
    sortedTexts_of_pairwise (by decide)
  have hwalk : typeAndUse.root.walk [] "" = ["a.ts", "b.ts"] := by
    change List.filter _ ((sortedTexts ["a.ts", "b.ts"]).map _) ++ joinByName [] = _
    rw [hsorted, joinByName, List.mergeSort_nil]
    rfl
  have hfiles : typeAndUse.files "/" [] 2000 = ["a.ts", "b.ts"] := by
    change sortedTexts ((typeAndUse.root.walk [] "").take 2000) = _
    rw [hwalk]
    exact hsorted
  have hroot : (Path.parse "/").render = "/" := by decide +kernel
  dsimp only [indexPaths]
  rw [hroot, hfiles]
  decide +kernel

/-- The place in the other file is found from the mention in this one. -/
theorem references_are_mentions_typeAndUse :
    let settings : WorkspaceSettings := ⟨"/", [], 2000⟩
    settings.provider.Reaches (.fresh typeAndUse) (.fresh typeAndUse) ∧
      "/b.ts" ∈ settings.indexedFiles typeAndUse ∧
      typeAndUse.identifierAt? "/b.ts" ⟨0, 7⟩ = some "A" ∧
      ∃ found, (settings.references "/b.ts" ⟨0, 7⟩ (.fresh typeAndUse)).1 = .ok found ∧
        found.Nodup ∧ ∃! l, l ∈ found ∧ l.Covers "/a.ts" ⟨0, 5⟩ := by
  intro settings
  have hfirst : typeAndUse.readText "/a.ts" = .ok "type A = B" := by
    have hentry : typeAndUse.entry "/a.ts" = .ok (.file "type A = B".toUTF8) := rfl
    rw [Disk.readText, hentry]
    exact Disk.decode_toUTF8 (by decide)
  have hsecond : typeAndUse.readText "/b.ts" = .ok "let b: A" := by
    have hentry : typeAndUse.entry "/b.ts" = .ok (.file "let b: A".toUTF8) := rfl
    rw [Disk.readText, hentry]
    exact Disk.decode_toUTF8 (by decide)
  have hindexed : ∀ path ∈ ["/a.ts", "/b.ts"], path ∈ settings.indexedFiles typeAndUse := by
    intro path hpath
    refine mem_indexedFiles.mpr ⟨indexPaths_typeAndUse ▸ hpath, ?_, ?_⟩
    · revert path
      decide +kernel
    · rcases List.mem_pair.mp hpath with rfl | rfl
      · rw [hfirst]
        rfl
      · rw [hsecond]
        rfl
  have hhere : typeAndUse.identifierAt? "/b.ts" ⟨0, 7⟩ = some "A" := by
    rw [Disk.identifierAt?, hsecond]
    decide +kernel
  have hthere : typeAndUse.identifierAt? "/a.ts" ⟨0, 5⟩ = some "A" := by
    rw [Disk.identifierAt?, hfirst]
    decide +kernel
  obtain ⟨found, hfound, hnodup, -, hmentions, -⟩ :=
    references_are_mentions .refl (hindexed "/b.ts" (by decide)) hhere
  exact ⟨.refl, hindexed "/b.ts" (by decide), hhere, found, hfound, hnodup,
    hmentions "/a.ts" (hindexed "/a.ts" (by decide)) ⟨0, 5⟩ hthere⟩

end WorkspaceSettings

end Vicinity
