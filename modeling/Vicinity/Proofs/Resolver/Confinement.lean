import Vicinity.Proofs.Path.Workspace
import Vicinity.Proofs.References.Collecting
import Vicinity.Proofs.Resolver.Frozen

/-!
# Which files are opened

Resolving types and collecting references follow the provider's answers to other files, but only to those
that are not left out: a file is opened, for its text or its symbols, when its path has been tested. So
with a provider that keeps a list of the questions, all that is added to the list are questions about
positions and questions for the content of files below the workspace root.

## What is proved

* `Confined`: a computation opens only certain files; there is a rule for each way to build computations.
* `confined_walk`, `confines_perform`: so does a walk, and every operation of a resolver but the reading
  of a file that it is told to read.
* `confines_collect`: so does collecting references.
* `workspace_bounds`: what is opened lies in the workspace, as far as no double dots lead out of it.
-/

namespace Vicinity

variable {σ S α β : Type}

/-- The file for whose content, its text or its symbols, a question asks. -/
def ProviderCall.contentOf? : ProviderCall → Option String
  | .text path => some path
  | .symbols path => some path
  | .locations _ _ _ => none

/-- The later list of questions goes on from the earlier one, and of the files whose content is asked for
from there on `ok` holds. -/
def OpensOnly (ok : String → Prop) (earlier later : List ProviderCall) : Prop :=
  ∃ more, later = earlier ++ more ∧ ∀ call ∈ more, ∀ path ∈ call.contentOf?, ok path

namespace OpensOnly

variable {ok : String → Prop} {calls later latest : List ProviderCall}

theorem refl (ok : String → Prop) (calls : List ProviderCall) : OpensOnly ok calls calls :=
  ⟨[], (List.append_nil calls).symm, fun _ h => absurd h List.not_mem_nil⟩

theorem trans (h : OpensOnly ok calls later) (h' : OpensOnly ok later latest) :
    OpensOnly ok calls latest := by
  obtain ⟨more, rfl, hmore⟩ := h
  obtain ⟨rest, rfl, hrest⟩ := h'
  refine ⟨more ++ rest, List.append_assoc calls more rest, fun call hcall => ?_⟩
  exact (List.mem_append.mp hcall).elim (hmore call) (hrest call)

/-- One more question. -/
theorem concat {call : ProviderCall} (h : ∀ path ∈ call.contentOf?, ok path) :
    OpensOnly ok calls (calls ++ [call]) :=
  ⟨[call], rfl, fun _ hcall => List.mem_singleton.mp hcall ▸ h⟩

end OpensOnly

/-! ### Computations that open certain files only -/

/-- From a state with `inv` a computation leads to one with `inv`; of the files that it opens `ok` holds, and
`post` of what it gives. The states keep a list of the questions. -/
def Confined (inv : S → Prop) (calls : S → List ProviderCall) (ok : String → Prop) (m : StateM S α)
    (post : α → Prop) : Prop :=
  ∀ s, inv s → inv (m s).2 ∧ OpensOnly ok (calls s) (calls (m s).2) ∧ post (m s).1

namespace Confined

variable {inv : S → Prop} {calls : S → List ProviderCall} {ok : String → Prop} {m : StateM S α}
  {post : α → Prop}

theorem pure {a : α} (h : post a) : Confined inv calls ok (Pure.pure a) post :=
  fun s hs => ⟨hs, .refl ok (calls s), h⟩

theorem get : Confined inv calls ok get fun _ => True := fun s hs => ⟨hs, .refl ok (calls s), trivial⟩

theorem modify {f : S → S} (hinv : ∀ s, inv s → inv (f s)) (hcalls : ∀ s, calls (f s) = calls s) :
    Confined inv calls ok (modify f) fun _ => True := by
  refine fun s hs => ⟨hinv s hs, ?_, trivial⟩
  show OpensOnly ok (calls s) (calls (f s))
  rw [hcalls]
  exact .refl ok (calls s)

/-- **One computation and then another** that depends on what the first one gives. -/
theorem bind {f : α → StateM S β} {next : β → Prop} (hm : Confined inv calls ok m post)
    (hf : ∀ a, post a → Confined inv calls ok (f a) next) : Confined inv calls ok (m >>= f) next := by
  intro s hs
  obtain ⟨hinv, hopens, hpost⟩ := hm s hs
  obtain ⟨hinv', hopens', hnext⟩ := hf _ hpost _ hinv
  exact ⟨hinv', hopens.trans hopens', hnext⟩

theorem mapM {f : β → StateM S α} (hf : ∀ b, Confined inv calls ok (f b) post) (bs : List β) :
    Confined inv calls ok (bs.mapM f) fun as => ∀ a ∈ as, post a := by
  induction bs with
  | nil => exact pure fun _ h => absurd h List.not_mem_nil
  | cons b bs ih =>
    rw [List.mapM_cons]
    exact bind (hf b) fun a ha => bind ih fun as has =>
      pure fun x hx => (List.mem_cons.mp hx).elim (· ▸ ha) (has x)

end Confined

/-! ### Resolving types -/

namespace Resolver

variable (r : Resolver σ)

/-- The resolver with a list of the questions. -/
def recorder : Resolver (σ × List ProviderCall) := r.via r.provider.recording

@[simp] theorem recorder_isIgnored : r.recorder.isIgnored = r.isIgnored := rfl

/-- A computation of the resolver opens only files that are not left out. -/
def Confines (m : ResolverM (σ × List ProviderCall) α) (post : α → Prop) : Prop :=
  Confined (fun _ => True) (fun s => s.world.2) (fun path => r.isIgnored path = false) m post

theorem confines_ask (what : Lookup) (path : String) (position : Position) :
    r.Confines (.ask (r.recorder.provider.locations what path position)) fun _ => True := by
  intro s _
  refine ⟨trivial, ?_, trivial⟩
  have hrun := locations_recording r.provider what path position s.world.1 s.world.2
  show OpensOnly _ s.world.2 (r.provider.recording.locations what path position s.world).2.2
  rw [hrun]
  exact .concat fun _ h => by cases h

theorem confines_read {path : String} (h : r.isIgnored path = false) :
    r.Confines (r.recorder.read path) fun _ => True := by
  intro s _
  refine ⟨trivial, ?_, trivial⟩
  cases hs : s.texts.lookup path with
  | some text =>
    rw [read_of_lookup hs]
    exact .refl _ _
  | none =>
    have hrun := textOrNone_recording r.provider path s.world.1 s.world.2
    rw [read_of_lookup_eq_none hs]
    show OpensOnly _ s.world.2 (r.provider.recording.textOrNone path s.world).2.2
    rw [hrun]
    exact .concat fun _ h' => Option.some.inj h' ▸ h

theorem confines_declarationAt {location : Location} (h : r.isIgnored location.path = false) :
    r.Confines (r.recorder.declarationAt location) fun _ => True := by
  refine .bind (r.confines_read h) fun text _ => ?_
  cases text with
  | none => exact .pure trivial
  | some text => exact .pure trivial

theorem confines_entriesAt (locations : List Location) :
    r.Confines (r.recorder.entriesAt locations) fun _ => True := by
  induction locations with
  | nil => exact .pure trivial
  | cons location more ih =>
    unfold entriesAt
    split
    · exact ih
    · rename_i hign
      refine .bind (r.confines_declarationAt (Bool.eq_false_iff.mpr hign)) fun declaration _ => ?_
      cases declaration with
      | none => exact ih
      | some declaration => exact .bind ih fun rest _ => .pure trivial

theorem confines_typesBy (what : Lookup) (doc : Document) (position : Position) :
    r.Confines (r.recorder.typesBy what doc position) fun _ => True :=
  .bind (r.confines_ask what doc.path position) fun found _ =>
    .bind (r.confines_entriesAt found) fun _ _ => .pure trivial

theorem confines_typesAt (doc : Document) (position : Position) :
    r.Confines (r.recorder.typesAt doc position) fun _ => True := by
  refine .bind (r.confines_typesBy .typeDefinitions doc position) fun types _ => ?_
  split
  · exact r.confines_typesBy .definitions doc position
  · exact .pure trivial

theorem confines_firstTypesAt (doc : Document) (positions : List Position) :
    r.Confines (r.recorder.firstTypesAt doc positions) fun _ => True := by
  induction positions with
  | nil => exact .pure trivial
  | cons position more ih =>
    refine .bind (r.confines_typesAt doc position) fun types _ => ?_
    split
    · exact ih
    · exact .pure trivial

/-- What is found is not left out. -/
theorem confines_firstAnswer (path : String) (position : Position) (kinds : List Lookup) :
    r.Confines (r.recorder.firstAnswer path position kinds) fun found =>
      ∀ location ∈ found, r.isIgnored location.path = false := by
  induction kinds with
  | nil => exact .pure fun _ h => by cases h
  | cons kind kinds ih =>
    unfold firstAnswer
    refine .bind (r.confines_ask kind path position) fun found _ => ?_
    split
    · rename_i location hfind
      refine .pure fun other hother => ?_
      obtain rfl := Option.some.inj hother
      simpa using List.find?_some hfind
    · exact ih

theorem confines_definingLocation (name : List Char) (docs : List Document) :
    r.Confines (r.recorder.definingLocation name docs) fun found =>
      ∀ location ∈ found, r.isIgnored location.path = false := by
  induction docs with
  | nil => exact .pure fun _ h => by cases h
  | cons doc docs ih =>
    unfold definingLocation
    split
    · exact ih
    · refine .bind (r.confines_firstAnswer doc.path _ _) fun found hfound => ?_
      cases found with
      | none => exact ih
      | some location => exact .pure hfound

theorem confines_declaringDocument (origin : Document) {location : Location}
    (h : r.isIgnored location.path = false) :
    r.Confines (r.recorder.declaringDocument origin location) fun _ => True := by
  unfold declaringDocument
  split
  · exact .pure trivial
  · refine .bind (r.confines_read h) fun text _ => ?_
    cases text with
    | none => exact .pure trivial
    | some text => exact .pure trivial

/-- **Looking a name up** opens the file where it is defined, which is not left out. -/
theorem confines_lookUp (origin : Document) (other : Option Document) (name : List Char) :
    r.Confines (r.recorder.lookUp origin other name) fun _ => True := by
  refine .bind (r.confines_definingLocation name (origin :: other.toList)) fun found hfound => ?_
  cases found with
  | none => exact .pure trivial
  | some location =>
    have hign := hfound location rfl
    refine .bind (r.confines_declarationAt hign) fun declaration _ => ?_
    cases declaration with
    | none => exact .pure trivial
    | some declaration =>
      exact .bind (r.confines_declaringDocument origin hign) fun _ _ => .pure trivial

/-- **A walk** opens only files that are not left out. -/
theorem confined_walk (origin : Document) (depth : Nat) (other : Option Document) (name : List Char) :
    Confined (fun _ => True) (fun s : Walk (σ × List ProviderCall) => s.world.2)
      (fun path => r.isIgnored path = false) (r.recorder.walk origin depth other name)
      fun _ => True := by
  induction depth generalizing other name with
  | zero => exact .pure trivial
  | succ depth ih =>
    have hlook : Confined (fun _ => True) (fun s : Walk (σ × List ProviderCall) => s.world.2)
        (fun path => r.isIgnored path = false) (WalkM.read (r.recorder.lookUp origin other name))
        fun _ => True := fun s _ => r.confines_lookUp origin other name s.toResolverState trivial
    unfold walk
    refine .bind .get fun s _ => ?_
    split
    · exact .pure trivial
    · refine .bind (.modify (fun _ _ => trivial) fun _ => rfl) fun _ _ => .bind hlook fun found _ => ?_
      cases found with
      | none => exact .pure trivial
      | some found => exact .bind (.mapM (ih found.declaring) found.uses) fun _ _ => .pure trivial

theorem confines_resolve (doc : Document) (name : List Char) (depth : Int)
    (visited : List (List Char)) :
    r.Confines (r.recorder.resolve doc name depth visited) fun _ => True := by
  intro s _
  exact ⟨trivial, (r.confined_walk doc depth.toNat none name ⟨s, visited⟩ trivial).2.1, trivial⟩

theorem confines_typesForFunction (doc : Document) (unit : CodeUnit) (depth : Int) :
    r.Confines (r.recorder.typesForFunction doc unit depth) fun _ => True := by
  intro s _
  have hwalks := Confined.mapM (r.confined_walk doc depth.toNat none) (customTypes unit.text.toList)
    ⟨s, []⟩ trivial
  exact ⟨trivial, hwalks.2.1, trivial⟩

theorem confines_typesForCandidates (doc : Document) (unit : CodeUnit) :
    r.Confines (r.recorder.typesForCandidates doc unit) fun _ => True := by
  have hcandidate (candidate : List Char × List Position) :
      r.Confines (r.recorder.firstTypesAt doc candidate.2) fun _ => True :=
    r.confines_firstTypesAt doc candidate.2
  exact .bind (.mapM hcandidate unit.candidates) fun _ _ => .pure trivial

/-- **Every operation** opens only files that are not left out, but for the reading of a file that the
resolver is told to read. -/
theorem confines_perform {operation : ResolverOperation} (h : ∀ path, operation ≠ .read path) :
    r.Confines (r.recorder.perform operation) fun _ => True := by
  cases operation with
  | read path => exact absurd rfl (h path)
  | typesAt doc position => exact .bind (r.confines_typesAt doc position) fun _ _ => .pure trivial
  | resolve doc name depth visited =>
    exact .bind (r.confines_resolve doc name depth visited) fun _ _ => .pure trivial
  | typesForCandidates doc unit =>
    exact .bind (r.confines_typesForCandidates doc unit) fun _ _ => .pure trivial
  | typesForFunction doc unit depth =>
    exact .bind (r.confines_typesForFunction doc unit depth) fun _ _ => .pure trivial

end Resolver

/-! ### Collecting references -/

theorem Provider.symbolsOrNone_recording (p : Provider σ) (path : String)
    (w : σ × List ProviderCall) :
    (p.recording.symbolsOrNone path w).2.2 = w.2 ++ [.symbols path] := by
  unfold symbolsOrNone
  simp only [bind, StateT.bind]
  rcases hanswer : p.recording.askSymbols path w with ⟨_ | (_ | symbols), v⟩
  · exact congrArg (·.2.2) hanswer.symm
  · exact congrArg (·.2.2) hanswer.symm
  · exact congrArg (·.2.2) hanswer.symm

theorem Provider.openDocument_recording (p : Provider σ) (path : String) (languageId : Option String)
    (w : σ × List ProviderCall) :
    (p.recording.openDocument path languageId w).2.2 = w.2 ++ [.text path] := by
  have hrun := Resolver.textOrNone_recording p path w.1 w.2
  unfold openDocument
  simp only [bind, StateT.bind, hrun]
  cases (p.textOrNone path w.1).1 <;> rfl

namespace ReferenceCollector

variable (r : ReferenceCollector σ)

/-- The collector with a list of the questions. -/
def recorder : ReferenceCollector (σ × List ProviderCall) :=
  { provider := r.provider.recording, root := r.root, isIgnored := r.isIgnored,
    includeReferences := r.includeReferences }

/-- A computation of the collector opens only files that are not left out. -/
def Confines (m : CollectorM (σ × List ProviderCall) α) (post : α → Prop) : Prop :=
  Confined CollectorState.Filed (fun s => s.world.2) (fun path => r.isIgnored path = false) m post

/-- A question that is for no content, or for that of a file that is not left out. -/
theorem confines_ask {question : StateM (σ × List ProviderCall) α} {call : ProviderCall}
    (hcall : ∀ w, (question w).2.2 = w.2 ++ [call])
    (hok : ∀ path ∈ call.contentOf?, r.isIgnored path = false) :
    r.Confines (.ask question) fun _ => True := by
  refine fun s hs => ⟨hs, ?_, trivial⟩
  show OpensOnly _ s.world.2 (question s.world).2.2
  rw [hcall]
  exact .concat hok

theorem confines_locationsAt (path : String) (position : Position) :
    r.Confines (r.recorder.locationsAt path position) fun _ => True := by
  have hask (what : Lookup) :
      r.Confines (.ask (r.recorder.provider.locations what path position)) fun _ => True := by
    have hcall (w : σ × List ProviderCall) :
        (r.recorder.provider.locations what path position w).2.2 =
          w.2 ++ [.locations what path position] :=
      congrArg (·.2.2) (Resolver.locations_recording r.provider what path position w.1 w.2)
    exact r.confines_ask hcall fun _ h => by cases h
  exact .bind (.mapM hask r.recorder.questions) fun _ _ => .pure trivial

theorem confines_document {path : String} (h : r.isIgnored path = false) :
    r.Confines (r.recorder.document path) fun doc => ∀ d ∈ doc, d.path = path := by
  intro s hs
  obtain ⟨hfiled, hpath⟩ := r.recorder.ensures_document path s hs
  refine ⟨hfiled, ?_, hpath⟩
  unfold document
  simp only [bind, StateT.bind, get, getThe, MonadStateOf.get, StateT.get, pure]
  cases hlook : s.documents.lookup path with
  | some doc => exact .refl _ _
  | none =>
    show OpensOnly _ s.world.2 (r.provider.recording.openDocument path none s.world).2.2
    rw [Provider.openDocument_recording]
    exact .concat fun _ h' => Option.some.inj h' ▸ h

theorem confines_declaredAt {location : Location} (h : r.isIgnored location.path = false) :
    r.Confines (r.recorder.declaredAt location) fun _ => True := by
  refine .bind (r.confines_document h) fun doc hdoc => ?_
  cases doc with
  | none => exact .pure trivial
  | some doc =>
    have hask : r.Confines (.ask (r.recorder.provider.symbolsOrNone doc.path)) fun _ => True :=
      r.confines_ask (r.provider.symbolsOrNone_recording doc.path)
        fun _ h' => Option.some.inj h' ▸ hdoc doc rfl ▸ h
    exact .bind hask fun _ _ => .pure trivial

theorem confines_collectFrom (unit : CodeUnit) (locations : List Location)
    (state : List Location × List CodeUnit) :
    r.Confines (r.recorder.collectFrom unit locations state) fun _ => True := by
  induction locations generalizing state with
  | nil => exact .pure trivial
  | cons location more ih =>
    obtain ⟨seen, found⟩ := state
    unfold collectFrom
    split
    · exact ih _
    dsimp only
    split
    · exact ih _
    rename_i hign
    refine .bind (r.confines_declaredAt (Bool.eq_false_iff.mpr hign)) fun declared _ => ?_
    cases declared with
    | none => exact ih _
    | some declared =>
      dsimp only
      split
      · exact ih _
      · exact ih _

theorem confines_collectAt (doc : Document) (unit : CodeUnit) (positions : List Position)
    (state : List Location × List CodeUnit) :
    r.Confines (r.recorder.collectAt doc unit positions state) fun _ => True := by
  induction positions generalizing state with
  | nil =>
    obtain ⟨seen, found⟩ := state
    exact .pure trivial
  | cons position more ih =>
    exact .bind (r.confines_locationsAt doc.path position) fun locations _ =>
      .bind (r.confines_collectFrom unit locations state) fun state _ => ih state

/-- **Collecting references** opens only files that are not left out. -/
theorem confines_collect (doc : Document) (unit : CodeUnit) :
    r.Confines (r.recorder.collect doc unit) fun _ => True :=
  .bind (r.confines_collectAt doc unit _ ([], [])) fun _ _ => .pure trivial

end ReferenceCollector

/-! ### The workspace -/

open Vicinity.Path

theorem isIgnored_of (p : Provider σ) (root : String) {config : Config}
    (h : config.ignoreTypePaths = []) (path : String) :
    (Resolver.of p root config).isIgnored path = !(parse path).isBelow (parse root) := by
  have hroot : parse (Resolver.of p root config).root = parse root := parse_render (read_parse root)
  have hconfig : (Resolver.of p root config).config.ignoreTypePaths = [] := h
  rw [Resolver.isIgnored, hroot, hconfig, List.any_nil, Bool.false_or]

/-- **What lies in the workspace.** Without double dots the paths that are not left out are those that lie
in the root; with them such a path lies in the root if none of them comes after the root's names. Seen from
the root a path is relative if it lies in it and the first name behind the root's does not begin with two
dots. Resolving types opens only files that are not left out, but for the one that the resolver is told to
read, and so does collecting references. -/
theorem workspace_bounds (p : Provider σ) (root : String) (config : Config)
    (hroot : (parse root).isAbsolute) (hconfig : config.ignoreTypePaths = []) :
    let r := Resolver.of p root config
    (∀ path, ".." ∉ (parse root).segments → ".." ∉ (parse path).segments →
      (r.isIgnored path = false ↔ LiesIn path root)) ∧
    (∀ path, ".." ∉ (parse path).segments.drop (parse root).segments.length →
      r.isIgnored path = false → LiesIn path root) ∧
    (∀ path, (parse path).isAbsolute → (parse path).slashes = (parse root).slashes →
      ((parse (relativePath path (some root))).isAbsolute = false ↔
        LiesIn path root ∧ ∀ rest, namesOf path = namesOf root ++ rest →
          ∀ first ∈ rest.head?, ¬BeginsWithDots first)) ∧
    (∀ operation, (∀ path, operation ≠ .read path) → ∀ s,
      OpensOnly (fun path => r.isIgnored path = false) s.world.2
        (r.recorder.perform operation s).2.world.2) ∧
    ∀ (includeReferences : Bool) (doc : Document) (unit : CodeUnit) (w : σ × List ProviderCall),
      let collector : ReferenceCollector σ := ⟨p, r.root, r.isIgnored, includeReferences⟩
      OpensOnly (fun path => r.isIgnored path = false) w.2
        (collector.recorder.collect doc unit ⟨w, []⟩).2.world.2 := by
  intro r
  have hign (path : String) : r.isIgnored path = false ↔ (parse path).isBelow (parse root) := by
    rw [isIgnored_of p root hconfig, Bool.not_eq_false']
  refine ⟨fun path hdots hdots' => ?_, fun path hdots h => ?_, fun path hpath hslashes => ?_,
    fun operation h s => ?_, fun includeReferences doc unit w => ?_⟩
  · rw [hign, liesIn_iff_isBelow hdots hdots']
  · exact .of_isBelow hroot hdots ((hign path).mp h)
  · exact relativePath_isAbsolute_iff hpath hroot hslashes
  · exact (r.confines_perform h s trivial).2.1
  · have hcollect := ReferenceCollector.confines_collect ⟨p, r.root, r.isIgnored, includeReferences⟩
      doc unit ⟨w, []⟩ (ReferenceCollector.filed_nil w)
    exact hcollect.2.1

/-- Settings under which nothing is left out for being a library. -/
def allPaths : Config := { ignoreTypePaths := [] }

/-- A type that is used in the workspace and defined above it. -/
def definedAbove : AnswerTables :=
  .ofTypes [("/ws/a.ts", "x: Foo"), ("/ws/../b.ts", "interface Foo \x7b\n\x7d")]
    [("Foo", "/ws/../b.ts", .of 0 10 0 13)]

/-- The questions that are put when the type is resolved. -/
def askedAbove : List ProviderCall :=
  ((Resolver.of AnswerTables.provider "/ws" allPaths).recorder.perform
    (.resolve (definedAbove.document "/ws/a.ts") "Foo".toList 1 []) ⟨(definedAbove, []), []⟩).2.world.2

theorem workspace_bounds_ws :
    ((Resolver.of AnswerTables.provider "/ws" allPaths).isIgnored "/ws//lib/a.ts" = false ↔
      LiesIn "/ws//lib/a.ts" "/ws") ∧
    LiesIn "/ws/./a.ts" "/ws" ∧
    ((parse (relativePath "/ws/lib/../a.ts" (some "/ws"))).isAbsolute = false ↔
      LiesIn "/ws/lib/../a.ts" "/ws" ∧ ∀ rest, namesOf "/ws/lib/../a.ts" = namesOf "/ws" ++ rest →
        ∀ first ∈ rest.head?, ¬BeginsWithDots first) ∧
    OpensOnly (fun path =>
      (Resolver.of AnswerTables.provider "/ws" allPaths).isIgnored path = false) [] askedAbove := by
  obtain ⟨hagree, hlies, hrelative, hopens, -⟩ :=
    workspace_bounds AnswerTables.provider "/ws" allPaths (by decide +kernel) rfl
  refine ⟨hagree _ (by decide +kernel) (by decide +kernel),
    hlies _ (by decide +kernel) (by decide +kernel), hrelative _ (by decide +kernel) (by decide +kernel),
    hopens _ (fun _ h => by cases h) _⟩

/-- **A path can lead out of the workspace** with double dots after the root's names: it is not left out,
and the file is opened. And a file of the workspace whose name begins with two dots keeps its whole path. -/
theorem opened_outside :
    (Resolver.of AnswerTables.provider "/ws" allPaths).isIgnored "/ws/../b.ts" = false ∧
      ¬LiesIn "/ws/../b.ts" "/ws" ∧ .text "/ws/../b.ts" ∈ askedAbove ∧
      LiesIn "/ws/..a.ts" "/ws" ∧ relativePath "/ws/..a.ts" (some "/ws") = "/ws/..a.ts" := by
  decide +kernel

end Vicinity
