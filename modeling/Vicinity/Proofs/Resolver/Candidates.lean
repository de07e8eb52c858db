import Vicinity.Proofs.Resolver.Provenance
import Vicinity.Proofs.Resolver.Steady
import Vicinity.Proofs.Resolver.Transcripts

/-!
# The types of candidates

The identifiers of a unit of code are looked up one after the other, each at its positions until one of them
gives a type. At a position the definitions of its type are asked for and, only if no type comes of them,
what is defined there. Where the provider is steady, all of this is told by its answers: which questions are
put, in which order, and which entries are returned.

## What is proved

* `Puts`: what a computation gives and which questions about positions it puts; there is a rule for each way
  to build computations.
* `entriesAt_eq`: the types declared at locations, told by the texts of the files.
* `puts_typesAt`, `puts_firstTypesAt`: a position, and the positions of one candidate.
* `typesForCandidates_exact`: the questions and the entries for all candidates.
-/

namespace Vicinity

variable {σ : Type}

/-- A list up to and with the first element that satisfies a condition; all of it if none does. -/
def upToFirst {α : Type} (p : α → Bool) (xs : List α) : List α :=
  xs.takeWhile (fun x => !p x) ++ (xs.find? p).toList

theorem upToFirst_cons {α : Type} (p : α → Bool) (x : α) (xs : List α) :
    upToFirst p (x :: xs) = x :: if p x then [] else upToFirst p xs := by
  unfold upToFirst
  by_cases hx : p x = true
  · simp [hx]
  · simp [hx]

namespace Resolver

variable (r : Resolver σ)

/-! ### Types told by the answers of a provider -/

/-- The type declared at a location, in the text that the provider has for the file. -/
def typeAt? (w : σ) (location : Location) : Option TypeEntry :=
  if r.isIgnored location.path then none
  else do
    let text ← (r.provider.textOrNone location.path w).1
    let declaration ←
      expand? text.toList location.span (languageFamily (languageIdOfPath location.path))
    let name := match declaredName? declaration.text with
      | some name => String.ofList name
      | none => unresolvedTypeName
    return r.entryOf name location.path declaration

/-- The types declared where one kind of question leads. -/
def typesLedTo (w : σ) (what : Lookup) (doc : Document) (position : Position) : List TypeEntry :=
  dedupeTypes ((r.provider.locations what doc.path position w).1.filterMap (r.typeAt? w))

/-- The types of what stands at a position. -/
def typesThere (w : σ) (doc : Document) (position : Position) : List TypeEntry :=
  if r.typesLedTo w .typeDefinitions doc position = [] then r.typesLedTo w .definitions doc position
  else r.typesLedTo w .typeDefinitions doc position

/-- The questions about a position: for the definitions of its type and, if no type comes of them, for what
is defined there. -/
def questionsAt (w : σ) (doc : Document) (position : Position) : List ProviderCall :=
  .locations .typeDefinitions doc.path position ::
    if r.typesLedTo w .typeDefinitions doc position = [] then
      [.locations .definitions doc.path position]
    else []

/-- Whether there is a type at a position. -/
def hasType (w : σ) (doc : Document) (position : Position) : Bool := r.typesThere w doc position ≠ []

/-- The questions put for the types of the identifiers of a unit of code. -/
def candidateCalls (doc : Document) (unit : CodeUnit) (s : ResolverState σ) : List ProviderCall :=
  ((r.via r.provider.recording).typesForCandidates doc unit (s.recorded [])).2.world.2

/-! ### What computations give and ask -/

variable {r} {s : ResolverState σ} {α β : Type}

/-- In each state that agrees with `s` a computation gives `a`; if the provider keeps a list of the questions
put to it, it gives the same, and those about positions are `asked`. -/
def Puts (r : Resolver σ) (s : ResolverState σ) (m : ResolverM σ α)
    (m' : ResolverM (σ × List ProviderCall) α) (a : α) (asked : List ProviderCall) : Prop :=
  Asks (r.Agrees s) m m' fun b more => b = a ∧ more = asked

/-- A computation that may put no question about a position puts none. -/
theorem Puts.of_alike (hs : r.Steady s) {m : ResolverM σ α}
    {m' : ResolverM (σ × List ProviderCall) α}
    (h : Alike r r.provider.recording (fun _ => 0) m m') : Puts r s m m' (m s).1 [] :=
  Asks.of_alike h fun t ht => ⟨⟨(h.fixed hs t ht).1, rfl⟩, (h.fixed hs t ht).2⟩

theorem Puts.ask (hs : r.Steady s) (what : Lookup) (path : String) (position : Position) :
    Puts r s (.ask (r.provider.locations what path position))
      (.ask (r.provider.recording.locations what path position))
      (r.provider.locations what path position s.world).1 [.locations what path position] := by
  have hfixed : r.Fixed s (.ask (r.provider.locations what path position)) :=
    Alike.fixed (p := r.provider) (b := fun _ => 1) hs (.ask what path position (Nat.le_refl 1))
  exact Asks.ask fun t ht => ⟨⟨(hfixed t ht).1, rfl⟩, (hfixed t ht).2⟩

theorem Puts.pure (a : α) : Puts r s (Pure.pure a) (Pure.pure a) a [] := Asks.pure ⟨rfl, rfl⟩

theorem Puts.bind {m : ResolverM σ α} {m' : ResolverM (σ × List ProviderCall) α} {a : α}
    {asked : List ProviderCall} {f : α → ResolverM σ β} {f' : α → ResolverM (σ × List ProviderCall) β}
    {b : β} {asked' : List ProviderCall} (hm : Puts r s m m' a asked)
    (hf : Puts r s (f a) (f' a) b asked') :
    Puts r s (m >>= f) (m' >>= f') b (asked ++ asked') := by
  refine Asks.bind hm ?_
  rintro _ _ ⟨rfl, rfl⟩
  exact Asks.mono hf fun _ more h => ⟨h.1, congrArg _ h.2⟩

theorem Puts.map {m : ResolverM σ α} {m' : ResolverM (σ × List ProviderCall) α} {a : α}
    {asked : List ProviderCall} (hm : Puts r s m m' a asked) (f : α → β) :
    Puts r s (m >>= fun a => Pure.pure (f a)) (m' >>= fun a => Pure.pure (f a)) (f a) asked := by
  rw [← List.append_nil asked]
  exact hm.bind (.pure (f a))

theorem Puts.mapM {f : α → ResolverM σ β} {f' : α → ResolverM (σ × List ProviderCall) β} {g : α → β}
    {asked : α → List ProviderCall} (hf : ∀ a, Puts r s (f a) (f' a) (g a) (asked a)) (as : List α) :
    Puts r s (as.mapM f) (as.mapM f') (as.map g) (as.flatMap asked) := by
  induction as with
  | nil => exact .pure []
  | cons a as ih =>
    rw [List.mapM_cons, List.mapM_cons, List.flatMap_cons]
    exact (hf a).bind (ih.map (g a :: ·))

/-! ### The types at positions -/

/-- **The types declared at locations** are told by the texts of the files. -/
theorem entriesAt_eq (hs : r.Steady s) (locations : List Location) :
    (r.entriesAt locations s).1 = locations.filterMap (r.typeAt? s.world) := by
  induction locations with
  | nil => rfl
  | cons location more ih =>
    rw [entriesAt_cons, List.filterMap_cons, typeAt?]
    by_cases hign : r.isIgnored location.path = true
    · rw [if_pos hign, if_pos hign]
      exact ih
    · have hmore : ∀ u, r.Agrees s u →
          (r.entriesAt more u).1 = more.filterMap (r.typeAt? s.world) := by
        intro u hu
        rw [((alike_entriesAt r r.provider more).fixed hs u hu).1, ih]
      obtain ⟨hread, hagrees⟩ := hs.agrees.read hs location.path
      rw [if_neg hign, if_neg hign, declarationAt_run, ← hread]
      rcases hrun : r.read location.path s with ⟨_ | text, u⟩
      · rw [hrun] at hagrees
        exact hmore u hagrees
      · rw [hrun] at hagrees
        dsimp only
        cases hexpand : expand? text.toList location.span
            (languageFamily (languageIdOfPath location.path)) with
        | none =>
          dsimp only
          rw [hmore u hagrees]
          simp [bind, hexpand]
        | some declaration =>
          dsimp only
          rw [hmore u hagrees]
          cases hname : declaredName? declaration.text <;> simp [bind, hexpand, hname]

theorem puts_typesBy (hs : r.Steady s) (what : Lookup) (doc : Document) (position : Position) :
    Puts r s (r.typesBy what doc position) ((r.via r.provider.recording).typesBy what doc position)
      (r.typesLedTo s.world what doc position) [.locations what doc.path position] := by
  have hentries := Puts.of_alike hs (alike_entriesAt r r.provider.recording
    (r.provider.locations what doc.path position s.world).1)
  rw [entriesAt_eq hs] at hentries
  exact (Puts.ask hs what doc.path position).bind (hentries.map dedupeTypes)

/-- **A position** is asked about once or twice. -/
theorem puts_typesAt (hs : r.Steady s) (doc : Document) (position : Position) :
    Puts r s (r.typesAt doc position) ((r.via r.provider.recording).typesAt doc position)
      (r.typesThere s.world doc position) (r.questionsAt s.world doc position) := by
  have hfirst := puts_typesBy hs .typeDefinitions doc position
  rw [typesThere, questionsAt]
  by_cases hnone : r.typesLedTo s.world .typeDefinitions doc position = []
  · rw [if_pos hnone, if_pos hnone]
    refine hfirst.bind ?_
    rw [hnone]
    exact puts_typesBy hs .definitions doc position
  · rw [if_neg hnone, if_neg hnone]
    refine hfirst.bind ?_
    rw [if_neg (by simpa using hnone), if_neg (by simpa using hnone)]
    exact .pure _

/-- The types at the first position that has any. -/
def firstTypes (r : Resolver σ) (w : σ) (doc : Document) (positions : List Position) :
    List TypeEntry :=
  ((positions.find? (r.hasType w doc)).map (r.typesThere w doc)).getD []

/-- **The positions of a candidate** are asked about up to the first one that has a type. -/
theorem puts_firstTypesAt (hs : r.Steady s) (doc : Document) (positions : List Position) :
    Puts r s (r.firstTypesAt doc positions)
      ((r.via r.provider.recording).firstTypesAt doc positions) (r.firstTypes s.world doc positions)
      ((upToFirst (r.hasType s.world doc) positions).flatMap (r.questionsAt s.world doc)) := by
  induction positions with
  | nil => exact .pure []
  | cons position more ih =>
    have hhere := puts_typesAt hs doc position
    rw [upToFirst_cons, List.flatMap_cons, firstTypes, List.find?_cons]
    by_cases hnone : r.typesThere s.world doc position = []
    · have hhas : r.hasType s.world doc position = false := by simp [hasType, hnone]
      rw [hhas]
      refine hhere.bind ?_
      rw [hnone]
      exact ih
    · have hhas : r.hasType s.world doc position = true := by simp [hasType, hnone]
      rw [hhas]
      refine hhere.bind ?_
      rw [if_neg (by simpa using hnone), if_neg (by simpa using hnone)]
      exact .pure _

/-! ### The types of all candidates -/

/-- **Candidates are looked up with the questions that they need.** If the provider has been steady since
the resolver was new, the questions about positions are, for one candidate after the other, those about
its positions up to the first one that has a type; at each of them the definitions of its type are asked
for, and what is defined there exactly if no type comes of them. What is returned are the types at those
first positions, the first entry of each name and file name. -/
theorem typesForCandidates_exact {w : σ} (hw : r.provider.Steady w) (hs : r.Agrees ⟨w, []⟩ s)
    (doc : Document) (unit : CodeUnit) :
    (∀ position, (r.typesAt doc position s).1 = r.typesThere w doc position) ∧
    (r.candidateCalls doc unit s).filter ProviderCall.isAboutPosition =
      unit.candidates.flatMap (fun candidate =>
        (upToFirst (r.hasType w doc) candidate.2).flatMap (r.questionsAt w doc)) ∧
    (r.typesForCandidates doc unit s).1 =
      firstByKey (fun type => (type.name, type.filename)) (unit.candidates.flatMap fun candidate =>
        ((candidate.2.find? (r.hasType w doc)).map (r.typesThere w doc)).getD []) := by
  have hsteady : r.Steady ⟨w, []⟩ := .of_new hw
  have hall := (Puts.mapM (fun candidate : List Char × List Position =>
    puts_firstTypesAt hsteady doc candidate.2) unit.candidates).map
      fun found => dedupeTypes found.flatten
  obtain ⟨asked, hrecorded, -, hvalue, hasked⟩ := hall s hs []
  refine ⟨fun position => ?_, ?_, ?_⟩
  · obtain ⟨-, -, -, hvalue, -⟩ := puts_typesAt hsteady doc position s hs []
    exact hvalue
  · have hcalls : r.candidateCalls doc unit s = asked := by
      have hstate := congrArg (fun x => x.2.world.2) hrecorded
      exact hstate
    rw [hcalls, hasked]
  · rw [← List.flatMap_def] at hvalue
    exact hvalue

/-- The type of `item` is known, `Last` is a type itself, and nothing is known of `count`. -/
def typeOrDefinition : AnswerTables where
  files := [("/a", "item count Last item count\ntype Item\ntype Last")]
  typeDefinitions := [("item", some [some ⟨"/a", some (.of 1 5 1 9)⟩])]
  definitions := [("Last", some [some ⟨"/a", some (.of 2 5 2 9)⟩])]

/-- The first line of the file. -/
def lineOfWords : CodeUnit := (typeOrDefinition.document "/a").unitAt "f" (.of 0 0 0 26) (some "/")

/-- Of the words of a line, `item` is asked about once and `count` at both its positions. -/
theorem typesForCandidates_lineOfWords :
    AnswerTables.resolver.provider.Steady typeOrDefinition ∧
      AnswerTables.resolver.Agrees ⟨typeOrDefinition, []⟩ ⟨typeOrDefinition, []⟩ ∧
      (AnswerTables.resolver.candidateCalls (typeOrDefinition.document "/a") lineOfWords
          ⟨typeOrDefinition, []⟩).filter ProviderCall.isAboutPosition =
        [.locations .typeDefinitions "/a" ⟨0, 0⟩,
          .locations .typeDefinitions "/a" ⟨0, 5⟩, .locations .definitions "/a" ⟨0, 5⟩,
          .locations .typeDefinitions "/a" ⟨0, 21⟩, .locations .definitions "/a" ⟨0, 21⟩,
          .locations .typeDefinitions "/a" ⟨0, 11⟩, .locations .definitions "/a" ⟨0, 11⟩] ∧
      ((AnswerTables.resolver.typesForCandidates (typeOrDefinition.document "/a") lineOfWords
          ⟨typeOrDefinition, []⟩).1.map fun type => (type.name, type.text)) =
        [("Item", "type Item"), ("Last", "type Last")] := by
  have hsteady : AnswerTables.resolver.provider.Steady typeOrDefinition := typeOrDefinition.steady
  have hagrees : AnswerTables.resolver.Agrees ⟨typeOrDefinition, []⟩ ⟨typeOrDefinition, []⟩ :=
    (Steady.of_new hsteady).agrees
  obtain ⟨-, hasked, htypes⟩ := typesForCandidates_exact hsteady hagrees
    (typeOrDefinition.document "/a") lineOfWords
  refine ⟨hsteady, hagrees, ?_, ?_⟩
  · rw [hasked]
    decide +kernel
  · rw [htypes]
    decide +kernel

end Resolver

end Vicinity
