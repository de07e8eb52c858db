import Vicinity.Engine
import Vicinity.Proofs.References.Collecting
import Vicinity.Proofs.Resolver.Provenance

/-!
# Well-formed bundles

Extracting the context of a position puts together what several parts find: the located unit, the types
of one of the two ways of resolving, the units that are referred to, and the files that all of this was
taken from. Whatever the provider answers and whichever of its answers fail, the bundle is well formed,
and there is one unless there is no workspace root or the document itself cannot be read.

## What is proved

* `Bundle.WellFormed`: no type and no referenced unit comes twice, the unit's text is cut out of the
  document, and the touched files are exactly those that something was taken from, none of them left
  out.
* `gather_run`: the steps of an extraction.
* `gather_wellFormed`: when there is a bundle, and that it is well formed.
-/

namespace Vicinity

variable {σ : Type}

/-- What holds of every bundle that has been extracted from a document; `isIgnored` tells the paths that
are left out. -/
structure Bundle.WellFormed (isIgnored : String → Bool) (doc : Document) (bundle : Bundle) : Prop where
  /-- The types have different names or files. -/
  nodup_types : (bundle.typeDefinitions.map fun type => (type.name, type.filename)).Nodup
  /-- The referenced units have different declarations. -/
  nodup_refs : (bundle.referencedFunctions.map (·.ref)).Nodup
  /-- The unit is cut out of the document, and is none of the referenced ones. -/
  function : ∃ unit, bundle.function = some unit ∧ unit.text = doc.textIn unit.span ∧
    ∀ u ∈ bundle.referencedFunctions, u.ref ≠ unit.ref
  nodup_files : bundle.touchedFiles.Nodup
  /-- The touched files are those of the document, of the types and of the referenced units. -/
  mem_files : ∀ path, path ∈ bundle.touchedFiles ↔ path = doc.path ∨
    (∃ type ∈ bundle.typeDefinitions, type.path = path) ∨
      ∃ unit ∈ bundle.referencedFunctions, unit.path = path
  /-- Nothing was taken from another file that is left out. -/
  not_isIgnored : ∀ path ∈ bundle.touchedFiles, path ≠ doc.path → isIgnored path = false

/-! ### Files -/

/-- The touched files, where every type and every unit has one. -/
theorem mem_touchedFiles {origin path : String} {types : List TypeEntry} {units : List CodeUnit}
    (htypes : ∀ type ∈ types, type.path ≠ "") (hunits : ∀ unit ∈ units, unit.path ≠ "") :
    path ∈ touchedFiles origin types units ↔
      path = origin ∨ (∃ type ∈ types, type.path = path) ∨ ∃ unit ∈ units, unit.path = path := by
  have htypes : (types.map (·.path)).filter (!·.isEmpty) = types.map (·.path) := by
    refine List.filter_eq_self.mpr fun path hpath => ?_
    obtain ⟨type, htype, rfl⟩ := List.mem_map.mp hpath
    simpa using htypes type htype
  have hunits : (units.map (·.path)).filter (!·.isEmpty) = units.map (·.path) := by
    refine List.filter_eq_self.mpr fun path hpath => ?_
    obtain ⟨unit, hunit, rfl⟩ := List.mem_map.mp hpath
    simpa using hunits unit hunit
  unfold touchedFiles
  rw [mem_pathSet, htypes, hunits, List.mem_cons, List.mem_append, List.mem_map, List.mem_map]

namespace Engine

variable (engine : Engine σ)

/-! ### What the parts find -/

/-- The types of a unit of code, resolved through its identifiers or, for an error, through its
capitalized words. -/
def typesOf (request : Request) (resolver : Resolver σ) (doc : Document) (unit : CodeUnit) :
    ResolverM σ (List TypeEntry) :=
  match request.errorMessage with
  | none => resolver.typesForCandidates doc unit
  | some _ => resolver.typesForFunction doc unit engine.config.depth

theorem emits_typesOf (request : Request) (resolver : Resolver σ) (doc : Document) (unit : CodeUnit)
    (s : ResolverState σ) :
    ∀ type ∈ (engine.typesOf request resolver doc unit s).1,
      resolver.Emits (engine.typesOf request resolver doc unit s).2 type := by
  unfold typesOf
  cases request.errorMessage with
  | none => exact resolver.emits_typesForCandidates doc unit s
  | some _ => exact resolver.emits_typesForFunction doc unit engine.config.depth s

/-- Either way the types have different names or files. -/
theorem nodup_typesOf (request : Request) (resolver : Resolver σ) (doc : Document) (unit : CodeUnit)
    (s : ResolverState σ) :
    ((engine.typesOf request resolver doc unit s).1.map fun type =>
      (type.name, type.filename)).Nodup := by
  unfold typesOf
  cases request.errorMessage with
  | none => exact nodup_firstByKey _ _
  | some _ => exact nodup_firstByKey _ _

/-- The referenced units, if they are wanted, differ from each other and from the unit itself, and lie
in files that are not left out. -/
theorem referencedUnits_spec (resolver : Resolver σ) (root : String) (doc : Document)
    (unit : CodeUnit) (s : σ) :
    let found := (engine.referencedUnits resolver root doc unit s).1
    (found.map (·.ref)).Nodup ∧ ∀ u ∈ found,
      u.path ≠ "" ∧ resolver.isIgnored u.path = false ∧ u.ref ≠ unit.ref := by
  unfold referencedUnits
  by_cases hwanted : engine.config.referencedFunctions
  · simp only [hwanted, if_true]
    refine ⟨ReferenceCollector.collect_nodup_refs _ doc unit _, fun u hu => ?_⟩
    have hrefers := ReferenceCollector.collect_refers _ doc unit s u hu
    exact ⟨hrefers.path_ne, hrefers.not_isIgnored, hrefers.ref_ne⟩
  · simp [hwanted]

/-! ### The bundle -/

/-- The bundle that is put together of what has been found. -/
def bundleOf (request : Request) (root : String) (doc : Document) (unit : CodeUnit)
    (types : List TypeEntry) (referenced : List CodeUnit) (s : σ) : Bundle where
  sourceFile := relativePath doc.path (some root)
  line := request.position.line
  focusLines := focusLines doc request.position.line engine.config.focusRadius
  errorMessage := request.errorMessage
  languageId := doc.languageId
  runtimeVersion := request.runtimeVersion
  packages := request.packages
  function := some unit
  referencedFunctions := referenced
  typeDefinitions := types
  touchedFiles := touchedFiles doc.path types referenced
  fileTree := some (engine.snapshot root s)

/-- **The steps of an extraction.** -/
theorem gather_run (request : Request) (s : σ) :
    engine.gather request s =
      match engine.root with
      | none => (none, s)
      | some root =>
        match engine.provider.openDocument request.path request.languageId s with
        | (none, t) => (none, t)
        | (some doc, t) =>
          let symbols := engine.provider.symbolsOrNone doc.path t
          match locate doc symbols.1 request.position (some root) .largest false true with
          | none => (none, symbols.2)
          | some unit =>
            let resolver := Resolver.of engine.provider root engine.config
            let types := engine.typesOf request resolver doc unit ⟨symbols.2, []⟩
            let referenced := engine.referencedUnits resolver root doc unit types.2.world
            (some (engine.bundleOf request root doc unit types.1 referenced.1 referenced.2),
              referenced.2) := by
  unfold gather
  cases engine.root with
  | none => rfl
  | some root =>
    simp only [bind, StateT.bind]
    rcases engine.provider.openDocument request.path request.languageId s with ⟨_ | doc, t⟩
    · rfl
    · show StateT.bind (engine.provider.symbolsOrNone doc.path) _ t = _
      simp only [StateT.bind, bind]
      rcases engine.provider.symbolsOrNone doc.path t with ⟨symbols, u⟩
      dsimp only
      cases locate doc symbols request.position (some root) .largest false true with
      | none => rfl
      | some unit => rfl

theorem wellFormed_bundleOf (request : Request) (root : String) (doc : Document)
    {unit : CodeUnit} (hunit : unit.text = doc.textIn unit.span) (s : σ) :
    let resolver := Resolver.of engine.provider root engine.config
    let run := engine.typesOf request resolver doc unit ⟨s, []⟩
    let referenced := engine.referencedUnits resolver root doc unit run.2.world
    (engine.bundleOf request root doc unit run.1 referenced.1 referenced.2).WellFormed
      resolver.isIgnored doc := by
  intro resolver run referenced
  obtain ⟨hnodup, hrefers⟩ := engine.referencedUnits_spec resolver root doc unit run.2.world
  have hemits := engine.emits_typesOf request resolver doc unit ⟨s, []⟩
  have hfiles : ∀ path, path ∈ touchedFiles doc.path run.1 referenced.1 ↔ path = doc.path ∨
      (∃ type ∈ run.1, type.path = path) ∨ ∃ u ∈ referenced.1, u.path = path :=
    fun path => mem_touchedFiles (fun type htype => (hemits type htype).path_ne)
      fun u hu => (hrefers u hu).1
  refine ⟨engine.nodup_typesOf request resolver doc unit _, hnodup,
    ⟨unit, rfl, hunit, fun u hu => (hrefers u hu).2.2⟩, nodup_pathSet _, hfiles,
    fun path hpath hne => ?_⟩
  rcases (hfiles path).mp hpath with heq | ⟨type, htype, rfl⟩ | ⟨u, hu, rfl⟩
  · exact absurd heq hne
  · exact (hemits type htype).not_isIgnored
  · exact (hrefers u hu).2.1

/-- **Every bundle is well formed**, and there is none exactly if there is no workspace root or the
document cannot be read. -/
theorem gather_wellFormed (request : Request) (s : σ) :
    match (engine.gather request s).1 with
    | none => engine.root = none ∨
        ∃ failure, (engine.provider.askText request.path s).1 = .error failure
    | some bundle => ∃ root text, engine.root = some root ∧
        (engine.provider.askText request.path s).1 = .ok text ∧
        bundle.WellFormed (Resolver.of engine.provider root engine.config).isIgnored
          ⟨request.path, bundle.languageId, text⟩ := by
  rw [gather_run]
  cases hroot : engine.root with
  | none => exact .inl rfl
  | some root =>
    have hrun := engine.provider.openDocument_run request.path request.languageId s
    rcases hdoc : engine.provider.openDocument request.path request.languageId s with ⟨opened, t⟩
    cases hread : (engine.provider.askText request.path s).1 with
    | error failure =>
      simp only [hread, hdoc] at hrun
      subst hrun
      exact .inr ⟨failure, rfl⟩
    | ok text =>
      simp only [hread, hdoc] at hrun
      obtain ⟨id, rfl⟩ := hrun
      obtain ⟨unit, hunit⟩ := exists_locate_largest ⟨request.path, id, text⟩
        (engine.provider.symbolsOrNone request.path t).1 request.position (some root) false
      simp only [hunit]
      obtain ⟨name, span, rfl⟩ := exists_unitAt_of_locate hunit
      exact ⟨root, text, rfl, rfl, engine.wellFormed_bundleOf request root _ rfl _⟩

end Engine

end Vicinity
