import Vicinity.Proofs.Declaration.Identity
import Vicinity.Proofs.Resolver.Steady

/-!
# Where the text of a type comes from

Types are found in two ways, at a position or by their names, and a declaration comes in two forms,
expanded or, where the expansion meets the head of a file, as the text of the reference alone. In every
case the entry of a type tells where its text comes from: the span that it records covers, in the text
that the resolver has read of the file, what the entry shows.

## What is proved

* `emits_typesAt`, `emits_typesForCandidates`, `emits_typesForFunction`: every entry is that of a
  declaration that stands around a location which is not left out.
* `types_provenance`: so the text of every entry is what its span covers, with or without comments.
-/

namespace Vicinity.Resolver

open Vicinity.Text

variable {σ : Type} (r : Resolver σ)

/-- An entry shows a declaration that stands, in the texts as they have been read, around a location
that the provider has given and that is not left out. -/
def Emits (s : ResolverState σ) (type : TypeEntry) : Prop :=
  ∃ found, r.provider.Answers found.location ∧ r.Stands s found ∧ type = r.entry found

/-- An entry tells where its text comes from: its span covers the text but for blanks at the ends, and
but for the comments if these are not wanted. -/
structure Provenance (s : ResolverState σ) (type : TypeEntry) : Prop where
  filename : type.filename = relativePath type.path (some r.root)
  text : ∃ span source shown,
    type.ref = some ⟨type.path, span⟩ ∧ s.texts.lookup type.path = some (some source) ∧
      trim shown = trim (textIn source.toList span) ∧
      type.text = String.ofList (if r.config.includeComments then shown
        else Comment.strip (languageFamily (languageIdOfPath type.path)) shown)

variable {r} {s t : ResolverState σ} {type : TypeEntry}

theorem Emits.keeps (h : r.Emits s type) (hk : s.Keeps t) : r.Emits t type := by
  obtain ⟨found, hanswers, hstands, htype⟩ := h
  exact ⟨found, hanswers, hstands.keeps hk, htype⟩

/-- Nothing is emitted from a file that is left out. -/
theorem Emits.not_isIgnored (h : r.Emits s type) : r.isIgnored type.path = false := by
  obtain ⟨found, -, hstands, rfl⟩ := h
  exact hstands.1

theorem Emits.path_ne (h : r.Emits s type) : type.path ≠ "" := by
  obtain ⟨found, hanswers, -, rfl⟩ := h
  exact hanswers.path_ne

/-- **What is emitted tells where it comes from.** -/
theorem Emits.provenance (h : r.Emits s type) : r.Provenance s type := by
  obtain ⟨found, -, ⟨-, source, hread, hexpand⟩, rfl⟩ := h
  refine ⟨rfl, found.declaration.span, source, found.declaration.text, rfl, hread,
    trim_text_of_expand? hexpand, ?_⟩
  show String.ofList _ = String.ofList _
  split <;> rfl

/-! ### By position -/

variable (r)

theorem entriesAt_cons (location : Location) (more : List Location) (s : ResolverState σ) :
    r.entriesAt (location :: more) s =
      if r.isIgnored location.path then r.entriesAt more s
      else match r.declarationAt location s with
        | (none, u) => r.entriesAt more u
        | (some declaration, u) =>
          let name := match declaredName? declaration.text with
            | some name => String.ofList name
            | none => unresolvedTypeName
          (r.entryOf name location.path declaration :: (r.entriesAt more u).1, (r.entriesAt more u).2)
        := by
  rw [entriesAt]
  by_cases hign : r.isIgnored location.path
  · rw [if_pos hign, if_pos hign]
  · rw [if_neg hign, if_neg hign]
    simp only [bind, StateT.bind]
    rcases r.declarationAt location s with ⟨_ | declaration, u⟩ <;> rfl

theorem emits_entriesAt {locations : List Location}
    (hanswers : ∀ location ∈ locations, r.provider.Answers location) (s : ResolverState σ) :
    ∀ type ∈ (r.entriesAt locations s).1, r.Emits (r.entriesAt locations s).2 type := by
  induction locations generalizing s with
  | nil => exact fun _ h => absurd h List.not_mem_nil
  | cons location more ih =>
    have ih := ih fun other hother => hanswers other (List.mem_cons_of_mem _ hother)
    rw [entriesAt_cons]
    split
    · exact ih s
    · rename_i hign
      rcases hdecl : r.declarationAt location s with ⟨_ | declaration, u⟩
      · exact ih u
      · intro type htype
        have hign : r.isIgnored location.path = false := by simpa using hign
        rcases List.mem_cons.mp htype with rfl | htype
        · have hstands := r.stands_of_declarationAt hign (congrArg Prod.fst hdecl)
            (match declaredName? declaration.text with
              | some name => name
              | none => unresolvedTypeName.toList) none
          rw [hdecl] at hstands
          have hkeeps := (alike_entriesAt r r.provider more).keeps u
          refine ⟨_, hanswers location List.mem_cons_self, hstands.keeps hkeeps, ?_⟩
          unfold entry
          congr 1
          cases declaredName? declaration.text <;> rfl
        · exact ih u type htype

theorem emits_typesBy (what : Lookup) (doc : Document) (position : Position) (s : ResolverState σ) :
    ∀ type ∈ (r.typesBy what doc position s).1, r.Emits (r.typesBy what doc position s).2 type :=
  fun type htype => r.emits_entriesAt (fun _ hmem => ⟨what, doc.path, position, s.world, hmem⟩) _ type
    (mem_of_mem_dedupeTypes htype)

theorem emits_typesAt (doc : Document) (position : Position) (s : ResolverState σ) :
    ∀ type ∈ (r.typesAt doc position s).1, r.Emits (r.typesAt doc position s).2 type := by
  unfold typesAt
  simp only [bind, StateT.bind]
  rcases hby : r.typesBy .typeDefinitions doc position s with ⟨types, u⟩
  by_cases hempty : types.isEmpty
  · simp only [hempty, if_true]
    exact r.emits_typesBy .definitions doc position u
  · have hfound := r.emits_typesBy .typeDefinitions doc position s
    rw [hby] at hfound
    simp only [hempty, Bool.false_eq_true, if_false]
    exact hfound

theorem emits_firstTypesAt (doc : Document) (positions : List Position) (s : ResolverState σ) :
    ∀ type ∈ (r.firstTypesAt doc positions s).1, r.Emits (r.firstTypesAt doc positions s).2 type := by
  induction positions generalizing s with
  | nil => exact fun _ h => absurd h List.not_mem_nil
  | cons position more ih =>
    unfold firstTypesAt
    simp only [bind, StateT.bind]
    rcases hat : r.typesAt doc position s with ⟨types, u⟩
    by_cases hempty : types.isEmpty
    · simp only [hempty, if_true]
      exact ih u
    · have hfound := r.emits_typesAt doc position s
      rw [hat] at hfound
      simp only [hempty, Bool.false_eq_true, if_false]
      exact hfound

/-- What each of several steps emits is emitted by all of them together. -/
theorem emits_mapM {α : Type} (step : α → ResolverM σ (List TypeEntry))
    (hkeep : ∀ a (s : ResolverState σ), s.Keeps (step a s).2)
    (hemit : ∀ a s, ∀ type ∈ (step a s).1, r.Emits (step a s).2 type) (as : List α)
    (s : ResolverState σ) :
    s.Keeps (as.mapM step s).2 ∧
      ∀ type ∈ (as.mapM step s).1.flatten, r.Emits (as.mapM step s).2 type := by
  induction as generalizing s with
  | nil => exact ⟨.refl s, fun _ h => absurd h List.not_mem_nil⟩
  | cons a as ih =>
    obtain ⟨hkeeps, hemits⟩ := ih (step a s).2
    rw [mapM_cons_run]
    refine ⟨(hkeep a s).trans hkeeps, fun type htype => ?_⟩
    rcases List.mem_append.mp htype with htype | htype
    · exact (hemit a s type htype).keeps hkeeps
    · exact hemits type htype

theorem typesForCandidates_run (doc : Document) (unit : CodeUnit) (s : ResolverState σ) :
    r.typesForCandidates doc unit s =
      let run := (unit.candidates.mapM fun candidate => r.firstTypesAt doc candidate.2 :
        ResolverM σ (List (List TypeEntry))) s
      (dedupeTypes run.1.flatten, run.2) := rfl

theorem emits_typesForCandidates (doc : Document) (unit : CodeUnit) (s : ResolverState σ) :
    ∀ type ∈ (r.typesForCandidates doc unit s).1,
      r.Emits (r.typesForCandidates doc unit s).2 type := by
  have hall := r.emits_mapM (fun candidate : List Char × List Position =>
    r.firstTypesAt doc candidate.2)
    (fun candidate s => (alike_firstTypesAt r r.provider doc candidate.2).keeps s)
    (fun candidate s => r.emits_firstTypesAt doc candidate.2 s) unit.candidates s
  rw [typesForCandidates_run]
  exact fun type htype => hall.2 type (mem_of_mem_dedupeTypes htype)

/-! ### By name -/

theorem Visits.emits {r : Resolver σ} {origin : Document} {depth : Nat} {other : Option Document}
    {names : List (List Char)} {s t : Walk σ} {log : List Visit}
    (h : r.Visits origin depth other names s log t) :
    ∀ type ∈ (findings log).map r.entry, r.Emits t.toResolverState type := by
  intro type htype
  obtain ⟨found, hfound, rfl⟩ := List.mem_map.mp htype
  obtain ⟨x, hx, hresult⟩ := mem_findings.mp hfound
  exact ⟨found, h.answers hx hresult, h.stands hx hresult, rfl⟩

theorem emits_resolve (doc : Document) (name : List Char) (depth : Int) (visited : List (List Char))
    (s : ResolverState σ) :
    ∀ type ∈ (r.resolve doc name depth visited s).1.1,
      r.Emits (r.resolve doc name depth visited s).2 type := by
  obtain ⟨log, t, h⟩ := r.exists_visits doc depth.toNat none [name] ⟨s, visited⟩
  rw [resolve_eq r doc name depth visited s h]
  exact h.emits

theorem emits_typesForFunction (doc : Document) (unit : CodeUnit) (depth : Int)
    (s : ResolverState σ) :
    ∀ type ∈ (r.typesForFunction doc unit depth s).1,
      r.Emits (r.typesForFunction doc unit depth s).2 type := by
  obtain ⟨log, t, h⟩ := r.exists_visits doc depth.toNat none (customTypes unit.text.toList) ⟨s, []⟩
  rw [typesForFunction_eq r doc s h]
  exact fun type htype => h.emits type (mem_of_mem_dedupeTypes htype)

/-- **Every entry tells where its text comes from**, however its type has been found: the span that it
records covers its text in the file as the resolver has read it. -/
theorem types_provenance (r : Resolver σ) (doc : Document) (s : ResolverState σ) :
    (∀ position, ∀ type ∈ (r.typesAt doc position s).1,
      r.Provenance (r.typesAt doc position s).2 type) ∧
    (∀ name depth visited, ∀ type ∈ (r.resolve doc name depth visited s).1.1,
      r.Provenance (r.resolve doc name depth visited s).2 type) ∧
    (∀ unit, ∀ type ∈ (r.typesForCandidates doc unit s).1,
      r.Provenance (r.typesForCandidates doc unit s).2 type) ∧
    (∀ unit depth, ∀ type ∈ (r.typesForFunction doc unit depth s).1,
      r.Provenance (r.typesForFunction doc unit depth s).2 type) := by
  refine ⟨fun position type h => ?_, fun name depth visited type h => ?_, fun unit type h => ?_,
    fun unit depth type h => ?_⟩
  · exact (r.emits_typesAt doc position s type h).provenance
  · exact (r.emits_resolve doc name depth visited s type h).provenance
  · exact (r.emits_typesForCandidates doc unit s type h).provenance
  · exact (r.emits_typesForFunction doc unit depth s type h).provenance

/-- A type that is imported, where the head of the file stands around the reference, and one that is
declared, with a comment. -/
def importedAndDeclared : AnswerTables :=
  .ofTypes [("/a", "import Head\nHead Body"), ("/b", "type Body // note")]
    [("Head", "/a", .of 0 7 0 11), ("Body", "/b", .of 0 5 0 9)]

/-- The entries of a name that `/a` uses. -/
def importedOrDeclared (name : String) : List TypeEntry × ResolverState AnswerTables :=
  let run := AnswerTables.resolver.resolve (importedAndDeclared.document "/a") name.toList 1 []
    ⟨importedAndDeclared, []⟩
  (run.1.1, run.2)

theorem provenance_importedOrDeclared :
    (importedOrDeclared "Head").1.map (fun type => (type.text, type.ref)) =
        [("Head", some ⟨"/a", .of 0 7 0 11⟩)] ∧
      (importedOrDeclared "Body").1.map (fun type => (type.text, type.ref)) =
        [("type Body", some ⟨"/b", .of 0 0 0 17⟩)] ∧
      ∀ name, ∀ type ∈ (importedOrDeclared name).1,
        AnswerTables.resolver.Provenance (importedOrDeclared name).2 type := by
  refine ⟨by decide +kernel, by decide +kernel, fun name => ?_⟩
  exact (types_provenance AnswerTables.resolver (importedAndDeclared.document "/a")
    ⟨importedAndDeclared, []⟩).2.1 name.toList 1 []

end Vicinity.Resolver
