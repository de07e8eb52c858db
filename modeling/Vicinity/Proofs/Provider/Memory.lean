import Vicinity.Proofs.Resolver.Steady
import Vicinity.Provider.Workspace

/-!
# What the provider of a workspace remembers

The provider of a workspace keeps texts, symbols and an index once it has read them. What it does
between a question and its answer is built from three things: reading a file, reading a file for its
symbols, and consulting the index. `Consults` says so, and is shown once of each operation; what holds of
these three then holds of every answer by induction.

## What is proved

* `Consults.keeps`: what is remembered of a file stays remembered, and the disk is not touched.
* `Consults.faithful`: on a disk that does not change, an answer is what it would have been without
  anything remembered.
* `answers_eq_alone`: a sequence of questions is answered as each of them would be alone.
* `steady_provider`: on such a disk the provider is steady.
-/

namespace Vicinity

/-- The answer of a provider to a question. -/
inductive ProviderAnswer where
  | symbols (answer : Except ProviderFailure (Option (List Symbol)))
  | locations (answer : Except ProviderFailure (Option (List (Option RawLocation))))
  | text (answer : Except ProviderFailure String)

/-- Puts a question to a provider. -/
def Provider.answer {σ : Type} (p : Provider σ) : ProviderCall → StateM σ ProviderAnswer
  | .symbols path => .symbols <$> p.askSymbols path
  | .locations what path position => .locations <$> p.askLocations what path position
  | .text path => .text <$> p.askText path

/-- The provider's state before the first question on a disk. -/
def WorkspaceState.fresh (disk : Disk) : WorkspaceState := { disk }

namespace WorkspaceState

@[simp] theorem fresh_disk (disk : Disk) : (fresh disk).disk = disk := rfl

@[simp] theorem fresh_texts (disk : Disk) : (fresh disk).texts = [] := rfl

@[simp] theorem fresh_parsed (disk : Disk) : (fresh disk).parsed = [] := rfl

@[simp] theorem fresh_index (disk : Disk) : (fresh disk).index = none := rfl

/-- What has been read from files in the state `s` is remembered in the state `t`, which has the same
disk. -/
structure Keeps (s t : WorkspaceState) : Prop where
  disk : t.disk = s.disk
  texts : ∀ path text, s.texts.lookup path = some text → t.texts.lookup path = some text
  parsed : ∀ path symbols, s.parsed.lookup path = some symbols →
    t.parsed.lookup path = some symbols

theorem Keeps.refl (s : WorkspaceState) : s.Keeps s := ⟨rfl, fun _ _ h => h, fun _ _ h => h⟩

theorem Keeps.trans {s t u : WorkspaceState} (h₁ : s.Keeps t) (h₂ : t.Keeps u) : s.Keeps u :=
  ⟨h₂.disk.trans h₁.disk, fun path text h => h₂.texts path text (h₁.texts path text h),
    fun path symbols h => h₂.parsed path symbols (h₁.parsed path symbols h)⟩

end WorkspaceState

namespace WorkspaceSettings

variable (settings : WorkspaceSettings)

/-! ### Reading -/

theorem bind_run {σ α β : Type} (m : StateM σ α) (f : α → StateM σ β) (s : σ) :
    (m >>= f) s = f (m s).1 (m s).2 := rfl

theorem get_run {σ : Type} (s : σ) : (get : StateM σ σ) s = (s, s) := rfl

theorem read_run (path : String) (s : WorkspaceState) :
    read path s =
      match s.texts.lookup path with
      | some text => (.ok text, s)
      | none =>
        match s.disk.readText path with
        | .ok text => (.ok text, { s with texts := (path, text) :: s.texts })
        | .error e => (.error e, s) := by
  unfold read
  rw [bind_run, get_run]
  cases s.texts.lookup path with
  | some text => rfl
  | none =>
    dsimp only
    rw [bind_run, get_run]
    cases s.disk.readText path <;> rfl

/-- The symbols that a reader finds in a text; none in one that it rejects. -/
def symbolsIn (symbolsOf : String → Except SourceError (List FlatSymbol)) (text : String) :
    List FlatSymbol :=
  match symbolsOf text with
  | .ok symbols => symbols
  | .error _ => []

/-- The symbols of a file after an attempt to read it. -/
def symbolsAfter (symbolsOf : String → Except SourceError (List FlatSymbol)) :
    Except ReadError String → Except ReadError (List FlatSymbol)
  | .ok text => .ok (symbolsIn symbolsOf text)
  | .error .notText => .ok []
  | .error e => .error e

theorem parse_run (path : String) (s : WorkspaceState) :
    parse path s =
      match s.parsed.lookup path with
      | some symbols => (.ok symbols, s)
      | none =>
        match symbolReaderOfPath? path with
        | none => (.ok [], { s with parsed := (path, []) :: s.parsed })
        | some symbolsOf =>
          let t := (read path s).2
          match symbolsAfter symbolsOf (read path s).1 with
          | .ok symbols => (.ok symbols, { t with parsed := (path, symbols) :: t.parsed })
          | .error e => (.error e, t) := by
  unfold parse
  rw [bind_run, get_run]
  cases s.parsed.lookup path with
  | some symbols => rfl
  | none =>
    cases symbolReaderOfPath? path with
    | none => rfl
    | some symbolsOf =>
      dsimp only
      rw [bind_run]
      rcases read path s with ⟨e | text, t⟩
      · cases e <;> rfl
      · dsimp only [symbolsAfter, symbolsIn]
        cases symbolsOf text <;> rfl

/-! ### What is built from reading -/

/-- A computation that reads files, looks for symbols in files that it has read, and consults the index,
and does nothing else. -/
inductive Consults : {α : Type} → WorkspaceM α → Prop where
  /-- Nothing is read. -/
  | pure {α : Type} (a : α) : Consults (pure a)
  /-- A file is read. -/
  | read (path : String) : Consults (read path)
  /-- A file is read for its symbols. -/
  | indexed (path : String) : Consults (indexed path)
  /-- The index is consulted, and made if there is none. -/
  | index (h : ∀ paths, Consults (extendIndex paths ⟨[], []⟩)) : Consults settings.index
  /-- One computation and then another that depends on its result. -/
  | bind {α β : Type} {m : WorkspaceM α} {f : α → WorkspaceM β} (hm : Consults m)
      (hf : ∀ a, Consults (f a)) : Consults (m >>= f)

variable {settings}

theorem consults_extendIndex (paths : List String) (index : WorkspaceIndex) :
    settings.Consults (extendIndex paths index) := by
  induction paths generalizing index with
  | nil => exact .pure index
  | cons path more ih =>
    unfold extendIndex
    split
    · exact ih index
    · refine .bind (.indexed path) fun found => ?_
      cases found with
      | error e => exact ih index
      | ok symbols => exact ih _

theorem consults_index : settings.Consults settings.index :=
  .index fun paths => consults_extendIndex paths ⟨[], []⟩

theorem consults_identifier (path : String) (position : Position) :
    settings.Consults (identifier path position) := by
  refine .bind (.read path) fun found => ?_
  cases found with
  | error e => exact .pure _
  | ok text =>
    dsimp only
    split
    · exact .pure _
    · split <;> exact .pure _

theorem consults_declarations (typesOnly : Bool) (path : String) (position : Position) :
    settings.Consults (settings.declarations typesOnly path position) := by
  refine .bind (consults_identifier path position) fun found => ?_
  rcases found with e | (_ | name)
  · exact .pure _
  · exact .pure _
  · refine .bind (.indexed path) fun found => ?_
    cases found with
    | error e => exact .pure _
    | ok symbols =>
      dsimp only
      split
      · exact .bind consults_index fun index => .pure _
      · exact .pure _

theorem consults_placesIn (word : List Char) (paths : List String) :
    settings.Consults (placesIn word paths) := by
  induction paths with
  | nil => exact .pure []
  | cons path more ih =>
    refine .bind (.read path) fun found => ?_
    cases found with
    | error e => exact ih
    | ok text => exact .bind ih fun rest => .pure _

theorem consults_references (path : String) (position : Position) :
    settings.Consults (settings.references path position) := by
  refine .bind (consults_identifier path position) fun found => ?_
  rcases found with e | (_ | name)
  · exact .pure _
  · exact .pure _
  · exact .bind consults_index fun index => .bind (consults_placesIn _ _) fun places => .pure _

theorem consults_locations (what : Lookup) (path : String) (position : Position) :
    settings.Consults (settings.locations what path position) := by
  cases what with
  | definitions => exact consults_declarations false path position
  | typeDefinitions => exact consults_declarations true path position
  | declarations => exact consults_declarations false path position
  | references => exact consults_references path position

/-! ### What stays remembered -/

theorem indexed_run (path : String) (s : WorkspaceState) :
    indexed path s =
      match (read path s).1 with
      | .error e => (.error e, (read path s).2)
      | .ok text =>
        ((parse path (read path s).2).1.map fun symbols => symbols.map fun symbol =>
          ⟨symbol.name, ⟨path, symbol.span⟩, isTypeLike (languageIdOfPath path) symbol.kind
            (sliceLines (Text.lines text.toList) symbol.span)⟩,
          (parse path (read path s).2).2) := by
  unfold indexed
  rw [bind_run]
  rcases read path s with ⟨e | text, t⟩
  · rfl
  · dsimp only
    rw [bind_run]
    rcases parse path t with ⟨e | symbols, u⟩ <;> rfl

/-- The paths of the files that are read for the index. -/
def indexPaths (settings : WorkspaceSettings) (disk : Disk) : List String :=
  (disk.files (Path.parse settings.root).render settings.exclude settings.indexLimit).map
    settings.pathOf

theorem index_run (s : WorkspaceState) :
    settings.index s =
      match s.index with
      | some index => (index, s)
      | none =>
        let made := extendIndex (settings.indexPaths s.disk) ⟨[], []⟩ s
        (made.1, { made.2 with index := some made.1 }) := by
  unfold index
  rw [bind_run, get_run]
  cases s.index with
  | some index => rfl
  | none =>
    dsimp only
    rw [bind_run, get_run]
    dsimp only
    rw [← indexPaths]
    generalize settings.indexPaths s.disk = paths
    rfl

/-- What is remembered under another key stays when something new is remembered. -/
theorem lookup_cons_of_new {β : Type} {known : List (String × β)} {key other : String} {value new : β}
    (hnew : known.lookup key = none) (h : known.lookup other = some value) :
    ((key, new) :: known).lookup other = some value := by
  have hne : other ≠ key := fun heq => by
    rw [heq, hnew] at h
    cases h
  rw [List.lookup_cons, beq_false_of_ne hne]
  exact h

theorem keeps_read (path : String) (s : WorkspaceState) : s.Keeps (read path s).2 := by
  rw [read_run]
  cases hlook : s.texts.lookup path with
  | some text => exact .refl s
  | none =>
    cases s.disk.readText path with
    | error e => exact .refl s
    | ok text => exact ⟨rfl, fun _ _ => lookup_cons_of_new hlook, fun _ _ h => h⟩

theorem parsed_read (path : String) (s : WorkspaceState) : (read path s).2.parsed = s.parsed := by
  rw [read_run]
  cases s.texts.lookup path with
  | some text => rfl
  | none => cases s.disk.readText path <;> rfl

theorem keeps_parse (path : String) (s : WorkspaceState) : s.Keeps (parse path s).2 := by
  rw [parse_run]
  cases hlook : s.parsed.lookup path with
  | some symbols => exact .refl s
  | none =>
    have hread := keeps_read path s
    have hlook' : (read path s).2.parsed.lookup path = none := by rw [parsed_read, hlook]
    cases symbolReaderOfPath? path with
    | none => exact ⟨rfl, fun _ _ h => h, fun _ _ => lookup_cons_of_new hlook⟩
    | some symbolsOf =>
      dsimp only
      cases symbolsAfter symbolsOf (read path s).1 with
      | error e => exact hread
      | ok symbols =>
        exact hread.trans ⟨rfl, fun _ _ h => h, fun _ _ => lookup_cons_of_new hlook'⟩

theorem keeps_indexed (path : String) (s : WorkspaceState) : s.Keeps (indexed path s).2 := by
  rw [indexed_run]
  cases (read path s).1 with
  | error e => exact keeps_read path s
  | ok text => exact (keeps_read path s).trans (keeps_parse path _)

theorem Consults.keeps {α : Type} {m : WorkspaceM α} (hm : settings.Consults m) (s : WorkspaceState) :
    s.Keeps (m s).2 := by
  induction hm generalizing s with
  | pure a => exact .refl s
  | read path => exact keeps_read path s
  | indexed path => exact keeps_indexed path s
  | index h ih =>
    rw [index_run]
    cases s.index with
    | some index => exact .refl s
    | none =>
      generalize settings.indexPaths s.disk = paths
      have hmade := ih paths s
      exact ⟨hmade.disk, hmade.texts, hmade.parsed⟩
  | bind hm hf ihm ihf => exact (ihm s).trans (ihf _ _)

/-! ### A disk that does not change -/

/-- All that is remembered is what would be found on the disk. -/
structure Faithful (settings : WorkspaceSettings) (s : WorkspaceState) : Prop where
  texts : ∀ path text, s.texts.lookup path = some text → (read path (.fresh s.disk)).1 = .ok text
  parsed : ∀ path symbols, s.parsed.lookup path = some symbols →
    (parse path (.fresh s.disk)).1 = .ok symbols
  index : ∀ index, s.index = some index → (settings.index (.fresh s.disk)).1 = index

theorem faithful_fresh (disk : Disk) : settings.Faithful (.fresh disk) where
  texts _ _ h := by cases h
  parsed _ _ h := by cases h
  index _ h := by cases h

/-- From every state in which all that is remembered is what would be found on the disk, a computation
gives the same as if nothing were remembered, and leads to such a state. -/
def Settled {α : Type} (settings : WorkspaceSettings) (m : WorkspaceM α) : Prop :=
  ∀ s, settings.Faithful s →
    (m s).1 = (m (.fresh s.disk)).1 ∧ (m s).2.disk = s.disk ∧ settings.Faithful (m s).2

theorem Settled.bind {α β : Type} {m : WorkspaceM α} {f : α → WorkspaceM β}
    (hm : settings.Settled m) (hf : ∀ a, settings.Settled (f a)) : settings.Settled (m >>= f) := by
  intro s hs
  obtain ⟨hvalue, hdisk, hfaithful⟩ := hm s hs
  obtain ⟨-, hdisk₀, hfaithful₀⟩ := hm (.fresh s.disk) (faithful_fresh s.disk)
  have hnext := hf (m s).1 (m s).2 hfaithful
  have hnext₀ := hf (m s).1 (m (.fresh s.disk)).2 hfaithful₀
  rw [hdisk] at hnext
  rw [hdisk₀] at hnext₀
  rw [bind_run, bind_run, ← hvalue]
  exact ⟨hnext.1.trans hnext₀.1.symm, hnext.2.1, hnext.2.2⟩

theorem Settled.map {α β : Type} {m : WorkspaceM α} (hm : settings.Settled m) (f : α → β) :
    settings.Settled (f <$> m) := by
  intro s hs
  obtain ⟨hvalue, hdisk, hfaithful⟩ := hm s hs
  exact ⟨congrArg f hvalue, hdisk, hfaithful⟩

theorem read_fresh (path : String) (disk : Disk) :
    (read path (.fresh disk)).1 = disk.readText path := by
  rw [read_run, WorkspaceState.fresh_texts, WorkspaceState.fresh_disk, List.lookup_nil]
  cases disk.readText path <;> rfl

theorem settled_read (path : String) : settings.Settled (read path) := by
  intro s hs
  rw [read_fresh, read_run]
  cases hlook : s.texts.lookup path with
  | some text =>
    have hvalue := hs.texts path text hlook
    rw [read_fresh] at hvalue
    exact ⟨hvalue.symm, rfl, hs⟩
  | none =>
    cases hread : s.disk.readText path with
    | error e => exact ⟨rfl, rfl, hs⟩
    | ok text =>
      refine ⟨rfl, rfl, fun other found hfound => ?_, hs.parsed, hs.index⟩
      rw [List.lookup_cons] at hfound
      split at hfound
      · rename_i heq
        cases hfound
        rw [eq_of_beq heq, read_fresh, hread]
      · exact hs.texts other found hfound

/-- What is found in a file may be remembered. -/
theorem Faithful.remember {s : WorkspaceState} (hs : settings.Faithful s) {path : String}
    {symbols : List FlatSymbol} (h : (parse path (.fresh s.disk)).1 = .ok symbols) :
    settings.Faithful { s with parsed := (path, symbols) :: s.parsed } := by
  refine ⟨hs.texts, fun other found hfound => ?_, hs.index⟩
  rw [List.lookup_cons] at hfound
  split at hfound
  · rename_i heq
    cases hfound
    rw [eq_of_beq heq]
    exact h
  · exact hs.parsed other found hfound

theorem parse_fresh (path : String) (disk : Disk) :
    (parse path (.fresh disk)).1 =
      match symbolReaderOfPath? path with
      | none => .ok []
      | some symbolsOf => symbolsAfter symbolsOf (disk.readText path) := by
  rw [parse_run, WorkspaceState.fresh_parsed, List.lookup_nil]
  dsimp only
  cases symbolReaderOfPath? path with
  | none => rfl
  | some symbolsOf =>
    dsimp only
    rw [read_fresh]
    cases symbolsAfter symbolsOf (disk.readText path) <;> rfl

theorem settled_parse (path : String) : settings.Settled (parse path) := by
  intro s hs
  have hfresh := parse_fresh path s.disk
  rw [parse_run]
  cases hlook : s.parsed.lookup path with
  | some symbols => exact ⟨(hs.parsed path symbols hlook).symm, rfl, hs⟩
  | none =>
    cases hreader : symbolReaderOfPath? path with
    | none =>
      rw [hreader] at hfresh
      exact ⟨hfresh.symm, rfl, hs.remember hfresh⟩
    | some symbolsOf =>
      obtain ⟨hvalue, hdisk, hfaithful⟩ := settled_read path s hs
      rw [read_fresh] at hvalue
      rw [hreader] at hfresh
      dsimp only at hfresh ⊢
      rw [hvalue]
      cases hafter : symbolsAfter symbolsOf (s.disk.readText path) with
      | error e =>
        rw [hafter] at hfresh
        exact ⟨hfresh.symm, hdisk, hfaithful⟩
      | ok symbols =>
        rw [hafter] at hfresh
        exact ⟨hfresh.symm, hdisk, hfaithful.remember (hdisk ▸ hfresh)⟩

theorem settled_indexed (path : String) : settings.Settled (indexed path) := by
  refine (settled_read path).bind fun found => ?_
  cases found with
  | error e => exact fun s hs => ⟨rfl, rfl, hs⟩
  | ok text =>
    refine (settled_parse path).bind fun found => ?_
    cases found with
    | error e => exact fun s hs => ⟨rfl, rfl, hs⟩
    | ok symbols => exact fun s hs => ⟨rfl, rfl, hs⟩

/-- **What is remembered does not show** as long as the disk does not change. -/
theorem Consults.settled {α : Type} {m : WorkspaceM α} (hm : settings.Consults m) :
    settings.Settled m := by
  induction hm with
  | pure a => exact fun s hs => ⟨rfl, rfl, hs⟩
  | read path => exact settled_read path
  | indexed path => exact settled_indexed path
  | bind hm hf ihm ihf => exact ihm.bind ihf
  | index h ih =>
    intro s hs
    obtain ⟨hvalue, hdisk, hfaithful⟩ := ih (settings.indexPaths s.disk) s hs
    have hfresh : (settings.index (.fresh s.disk)).1 =
        (extendIndex (settings.indexPaths s.disk) ⟨[], []⟩ s).1 := by
      rw [index_run, WorkspaceState.fresh_index, hvalue, WorkspaceState.fresh_disk]
    rw [index_run]
    cases hindex : s.index with
    | some index => exact ⟨(hs.index index hindex).symm, rfl, hs⟩
    | none =>
      generalize extendIndex (settings.indexPaths s.disk) ⟨[], []⟩ s = made at hdisk hfaithful hfresh ⊢
      refine ⟨hfresh.symm, hdisk, hfaithful.texts, hfaithful.parsed, fun index h => ?_⟩
      have hdisk : { made.2 with index := some made.1 }.disk = s.disk := hdisk
      rw [← Option.some.inj h, hdisk]
      exact hfresh

/-! ### The provider -/

theorem settled_askSymbols (path : String) : settings.Settled (settings.provider.askSymbols path) := by
  refine (settled_parse path).bind fun found => ?_
  cases found <;> exact (Consults.pure _).settled

theorem settled_askLocations (what : Lookup) (path : String) (position : Position) :
    settings.Settled (settings.provider.askLocations what path position) := by
  refine (consults_locations what path position).settled.bind fun found => ?_
  cases found <;> exact (Consults.pure _).settled

theorem settled_askText (path : String) : settings.Settled (settings.provider.askText path) := by
  refine (settled_read path).bind fun found => ?_
  cases found <;> exact (Consults.pure _).settled

theorem settled_answer (call : ProviderCall) : settings.Settled (settings.provider.answer call) := by
  cases call with
  | symbols path => exact (settled_askSymbols path).map ProviderAnswer.symbols
  | locations what path position =>
    exact (settled_askLocations what path position).map ProviderAnswer.locations
  | text path => exact (settled_askText path).map ProviderAnswer.text

/-- Whatever is asked, all that is remembered is what would be found on the disk. -/
theorem faithful_of_reaches {disk : Disk} {s : WorkspaceState}
    (h : settings.provider.Reaches (.fresh disk) s) : settings.Faithful s ∧ s.disk = disk := by
  induction h with
  | refl => exact ⟨faithful_fresh disk, rfl⟩
  | symbols path _ ih =>
    obtain ⟨-, hdisk, hfaithful⟩ := settled_askSymbols path _ ih.1
    exact ⟨hfaithful, hdisk.trans ih.2⟩
  | locations what path position _ ih =>
    obtain ⟨-, hdisk, hfaithful⟩ := settled_askLocations what path position _ ih.1
    exact ⟨hfaithful, hdisk.trans ih.2⟩
  | text path _ ih =>
    obtain ⟨-, hdisk, hfaithful⟩ := settled_askText path _ ih.1
    exact ⟨hfaithful, hdisk.trans ih.2⟩

/-- On a disk that does not change the provider is steady. -/
theorem steady_provider (settings : WorkspaceSettings) (disk : Disk) :
    settings.provider.Steady (.fresh disk) := by
  refine ⟨fun v hv path => ?_, fun v hv what path position => ?_, fun v hv path => ?_⟩ <;>
    obtain ⟨hfaithful, rfl⟩ := faithful_of_reaches hv
  · exact (settled_askSymbols path v hfaithful).1
  · exact (settled_askLocations what path position v hfaithful).1
  · exact (settled_askText path v hfaithful).1

theorem mapM_answer {s : WorkspaceState} (hs : settings.Faithful s) (calls : List ProviderCall) :
    (calls.mapM settings.provider.answer s).1 =
      calls.map fun call => (settings.provider.answer call (.fresh s.disk)).1 := by
  induction calls generalizing s with
  | nil => rfl
  | cons call more ih =>
    obtain ⟨hvalue, hdisk, hfaithful⟩ := settled_answer call s hs
    have hmore := ih hfaithful
    rw [hdisk] at hmore
    rw [Resolver.mapM_cons_run, List.map_cons, ← hvalue, ← hmore]

/-- **Each question of a sequence is answered as if it were the only one**, with the same value or the
same failure, as long as the disk does not change. -/
theorem answers_eq_alone (settings : WorkspaceSettings) (disk : Disk) (calls : List ProviderCall) :
    (calls.mapM settings.provider.answer (.fresh disk)).1 =
      calls.map fun call => (settings.provider.answer call (.fresh disk)).1 :=
  mapM_answer (faithful_fresh disk) calls

end WorkspaceSettings

end Vicinity
