import Vicinity.Proofs.Engine.Gathering

/-!
# Questions without an answer

A provider may fail, it may have no answer, and what it answers may be empty or made of locations that
name no place. An extraction takes all of these for the same: nothing has been found. So it does not
matter in which of these ways a question remains open; the result is the same, and so are the questions
that are put.

## What is proved

* `Disguise`: open answers are exchanged for other open answers, as one likes it for each question.
* `Provider.FindsAlike`: two providers among whose answers there is no other difference; each part of an
  extraction is the same computation with the one and with the other.
* `extraction_disguised`: no extraction and no sweep can tell a disguise.
-/

namespace Vicinity

/-! ### Open answers -/

/-- What a provider answers if it is asked for symbols. -/
abbrev SymbolAnswer := Except ProviderFailure (Option (List Symbol))

/-- What a provider answers if it is asked for locations. -/
abbrev LocationAnswer := Except ProviderFailure (Option (List (Option RawLocation)))

/-- Whether a location names no place: it is missing, or its path or its span is. -/
def namesNoPlace : Option RawLocation → Bool
  | none => true
  | some raw => raw.path.isEmpty || raw.span.isNone

/-- A question for symbols remains open: it fails, has no answer, or an empty one. -/
inductive SymbolAnswer.Open : SymbolAnswer → Prop where
  | failed (failure : ProviderFailure) : Open (.error failure)
  | missing : Open (.ok none)
  | empty : Open (.ok (some []))

/-- A question for locations remains open: it fails, has no answer, or one in which no location names a
place. -/
inductive LocationAnswer.Open : LocationAnswer → Prop where
  | failed (failure : ProviderFailure) : Open (.error failure)
  | missing : Open (.ok none)
  | blank (found : List (Option RawLocation)) (h : ∀ raw ∈ found, namesNoPlace raw = true) :
    Open (.ok (some found))

/-- What is answered in place of other answers, after the questions put before: an answer is kept, or
it is open and exchanged for another open one. -/
structure Disguise where
  symbols : List ProviderCall → String → SymbolAnswer → SymbolAnswer
  locations : List ProviderCall → Lookup → String → Position → LocationAnswer → LocationAnswer
  symbols_open : ∀ calls path answer, symbols calls path answer = answer ∨
    answer.Open ∧ (symbols calls path answer).Open
  locations_open : ∀ calls what path position answer,
    locations calls what path position answer = answer ∨
      answer.Open ∧ (locations calls what path position answer).Open

theorem Provider.location?_eq_none_iff {raw : Option RawLocation} :
    location? raw = none ↔ namesNoPlace raw = true := by
  rcases raw with _ | ⟨path, _ | span⟩
  · simp [location?, namesNoPlace]
  · simp [location?, namesNoPlace]
  · by_cases hpath : path.isEmpty <;> simp [location?, namesNoPlace, hpath]

/-- The symbols that an answer gives. -/
def SymbolAnswer.symbols : SymbolAnswer → List Symbol
  | .ok (some symbols) => symbols
  | _ => []

/-- The locations that an answer gives. -/
def LocationAnswer.locations : LocationAnswer → List Location
  | .ok (some found) => found.filterMap Provider.location?
  | _ => []

theorem SymbolAnswer.Open.symbols_eq {answer : SymbolAnswer} (h : answer.Open) :
    answer.symbols = [] := by
  cases h <;> rfl

theorem LocationAnswer.Open.locations_eq {answer : LocationAnswer} (h : answer.Open) :
    answer.locations = [] := by
  cases h with
  | failed | missing => rfl
  | blank found h =>
    exact List.filterMap_eq_nil_iff.mpr fun raw hraw =>
      Provider.location?_eq_none_iff.mpr (h raw hraw)

/-- A question for symbols remains open if its answer gives none. -/
theorem SymbolAnswer.open_iff {answer : SymbolAnswer} : answer.Open ↔ answer.symbols = [] := by
  refine ⟨Open.symbols_eq, fun h => ?_⟩
  match answer with
  | .error failure => exact .failed failure
  | .ok none => exact .missing
  | .ok (some []) => exact .empty
  | .ok (some (_ :: _)) => cases h

/-- A question for locations remains open if its answer gives none. -/
theorem LocationAnswer.open_iff {answer : LocationAnswer} : answer.Open ↔ answer.locations = [] := by
  refine ⟨Open.locations_eq, fun h => ?_⟩
  match answer with
  | .error failure => exact .failed failure
  | .ok none => exact .missing
  | .ok (some found) =>
    have hnone := List.filterMap_eq_nil_iff.mp h
    exact .blank found fun raw hraw => Provider.location?_eq_none_iff.mp (hnone raw hraw)

namespace Disguise

variable (d : Disguise)

theorem symbols_eq (calls : List ProviderCall) (path : String) (answer : SymbolAnswer) :
    (d.symbols calls path answer).symbols = answer.symbols := by
  rcases d.symbols_open calls path answer with hsame | ⟨hopen, hopen'⟩
  · rw [hsame]
  · rw [hopen.symbols_eq, hopen'.symbols_eq]

theorem locations_eq (calls : List ProviderCall) (what : Lookup) (path : String)
    (position : Position) (answer : LocationAnswer) :
    (d.locations calls what path position answer).locations = answer.locations := by
  rcases d.locations_open calls what path position answer with hsame | ⟨hopen, hopen'⟩
  · rw [hsame]
  · rw [hopen.locations_eq, hopen'.locations_eq]

end Disguise

namespace Provider

variable {σ : Type} {p q : Provider σ}

/-- The provider in a disguise, which also keeps the questions put to it, the first one first. -/
def disguised (p : Provider σ) (d : Disguise) : Provider (σ × List ProviderCall) where
  askSymbols path := fun (s, calls) =>
    let (answer, s) := p.askSymbols path s
    (d.symbols calls path answer, s, calls ++ [.symbols path])
  askLocations what path position := fun (s, calls) =>
    let (answer, s) := p.askLocations what path position s
    (d.locations calls what path position answer, s, calls ++ [.locations what path position])
  askText path := fun (s, calls) =>
    let (answer, s) := p.askText path s
    (answer, s, calls ++ [.text path])

/-- Two providers that answer alike, but for questions that remain open with both of them. -/
structure FindsAlike (p q : Provider σ) : Prop where
  symbols : p.symbolsOrNone = q.symbolsOrNone
  locations : p.locations = q.locations
  text : p.askText = q.askText

theorem symbolsOrNone_run (p : Provider σ) (path : String) (s : σ) :
    p.symbolsOrNone path s =
      (SymbolAnswer.symbols (p.askSymbols path s).1, (p.askSymbols path s).2) := by
  unfold symbolsOrNone
  simp only [bind, StateT.bind]
  rcases p.askSymbols path s with ⟨_ | (_ | symbols), t⟩ <;> rfl

/-- **A provider in a disguise** answers like itself, but for questions that remain open. -/
theorem findsAlike_disguised (p : Provider σ) (d : Disguise) :
    (p.disguised d).FindsAlike p.recording := by
  refine ⟨?_, ?_, rfl⟩
  · funext path ⟨s, calls⟩
    rw [symbolsOrNone_run, symbolsOrNone_run]
    exact Prod.ext (d.symbols_eq calls path (p.askSymbols path s).1) rfl
  · funext what path position ⟨s, calls⟩
    rw [locations_run, locations_run]
    exact Prod.ext
      (d.locations_eq calls what path position (p.askLocations what path position s).1) rfl

namespace FindsAlike

theorem symm (h : p.FindsAlike q) : q.FindsAlike p :=
  ⟨h.symbols.symm, h.locations.symm, h.text.symm⟩

theorem textOrNone (h : p.FindsAlike q) : p.textOrNone = q.textOrNone := by
  funext path
  simp only [Provider.textOrNone, h.text]

theorem openDocument (h : p.FindsAlike q) : p.openDocument = q.openDocument := by
  funext path languageId
  simp only [Provider.openDocument, h.textOrNone]

end FindsAlike

end Provider

variable {σ : Type} {q : Provider σ}

/-! ### Resolving -/

namespace Resolver

variable {r : Resolver σ}

/-- A computation that puts questions and reads files is the same with either provider. -/
theorem Alike.eq {α : Type} {b : Lookup → Nat} {m m' : ResolverM σ α} (halike : Alike r q b m m')
    (h : r.provider.FindsAlike q) : m = m' := by
  induction halike with
  | pure a => rfl
  | ask what path position _ => rw [h.locations]
  | read path =>
    simp only [Resolver.read, h.textOrNone]
    rfl
  | bind _ _ _ ihm ihf => rw [ihm, funext ihf]

theorem walk_via (h : r.provider.FindsAlike q) (origin : Document) (depth : Nat) :
    (r.via q).walk origin depth = r.walk origin depth := by
  induction depth with
  | zero => rfl
  | succ depth ih =>
    funext other name
    unfold walk
    rw [ih, (alike_lookUp r q origin other name).eq h]

theorem typesForFunction_via (h : r.provider.FindsAlike q) (doc : Document) (unit : CodeUnit)
    (depth : Int) :
    (r.via q).typesForFunction doc unit depth = r.typesForFunction doc unit depth := by
  unfold typesForFunction
  rw [walk_via h]
  rfl

theorem typesForCandidates_via (h : r.provider.FindsAlike q) (doc : Document) (unit : CodeUnit) :
    (r.via q).typesForCandidates doc unit = r.typesForCandidates doc unit := by
  unfold typesForCandidates
  have hsame : ∀ positions, (r.via q).firstTypesAt doc positions = r.firstTypesAt doc positions :=
    fun positions => ((alike_firstTypesAt r q doc positions).eq h).symm
  simp only [hsame]

end Resolver

/-! ### Collecting -/

namespace ReferenceCollector

variable {r : ReferenceCollector σ}

/-- The collector with another provider. -/
def via (r : ReferenceCollector σ) (q : Provider σ) : ReferenceCollector σ := { r with provider := q }

theorem declaredAt_via (h : r.provider.FindsAlike q) (location : Location) :
    (r.via q).declaredAt location = r.declaredAt location := by
  have hdocument : (r.via q).document = r.document := by
    funext path
    simp only [document, via, h.openDocument]
  unfold declaredAt
  rw [hdocument]
  simp only [via, h.symbols]

theorem collectFrom_via (h : r.provider.FindsAlike q) (unit : CodeUnit) (locations : List Location)
    (state : List Location × List CodeUnit) :
    (r.via q).collectFrom unit locations state = r.collectFrom unit locations state := by
  induction locations generalizing state with
  | nil => rfl
  | cons location more ih =>
    unfold collectFrom
    simp only [ih, declaredAt_via h]
    rfl

theorem collectAt_via (h : r.provider.FindsAlike q) (doc : Document) (unit : CodeUnit)
    (positions : List Position) (state : List Location × List CodeUnit) :
    (r.via q).collectAt doc unit positions state = r.collectAt doc unit positions state := by
  have hlocations : (r.via q).locationsAt = r.locationsAt := by
    funext path position
    simp only [locationsAt, via, h.locations]
    rfl
  induction positions generalizing state with
  | nil => rfl
  | cons position more ih =>
    unfold collectAt
    simp only [ih, hlocations, collectFrom_via h]

theorem collect_via (h : r.provider.FindsAlike q) (doc : Document) (unit : CodeUnit) :
    (r.via q).collect doc unit = r.collect doc unit := by
  unfold collect
  simp only [collectAt_via h]

end ReferenceCollector

/-! ### Extracting -/

namespace Engine

/-- The engine with another provider. -/
def via (engine : Engine σ) (q : Provider σ) : Engine σ := { engine with provider := q }

variable {engine : Engine σ}

theorem referencedUnits_via (h : engine.provider.FindsAlike q) (resolver : Resolver σ) (root : String)
    (doc : Document) (unit : CodeUnit) :
    (engine.via q).referencedUnits (resolver.via q) root doc unit =
      engine.referencedUnits resolver root doc unit := by
  let collector : ReferenceCollector σ :=
    { provider := engine.provider, root, isIgnored := resolver.isIgnored,
      includeReferences := engine.config.includeReferences }
  have hcollect : (collector.via q).collect doc unit = collector.collect doc unit :=
    ReferenceCollector.collect_via h doc unit
  funext s
  show (if engine.config.referencedFunctions then
      (((collector.via q).collect doc unit { world := s }).1,
        ((collector.via q).collect doc unit { world := s }).2.world) else ([], s)) = _
  rw [hcollect]
  rfl

theorem typesOf_via (h : engine.provider.FindsAlike q) (request : Request) (root : String)
    (doc : Document) (unit : CodeUnit) :
    (engine.via q).typesOf request (Resolver.of q root engine.config) doc unit =
      engine.typesOf request (Resolver.of engine.provider root engine.config) doc unit := by
  have hsame : (Resolver.of engine.provider root engine.config).provider.FindsAlike q := h
  unfold typesOf
  cases request.errorMessage with
  | none => exact Resolver.typesForCandidates_via hsame doc unit
  | some _ => exact Resolver.typesForFunction_via hsame doc unit engine.config.depth

theorem gather_via (h : engine.provider.FindsAlike q) (request : Request) :
    (engine.via q).gather request = engine.gather request := by
  funext s
  rw [gather_run, gather_run]
  have hroot : (engine.via q).root = engine.root := rfl
  have hprovider : (engine.via q).provider = q := rfl
  have hconfig : (engine.via q).config = engine.config := rfl
  have hreferenced : ∀ root doc unit,
      (engine.via q).referencedUnits (Resolver.of q root engine.config) root doc unit =
        engine.referencedUnits (Resolver.of engine.provider root engine.config) root doc unit :=
    fun root => referencedUnits_via h (Resolver.of engine.provider root engine.config) root
  simp only [hroot, hprovider, hconfig, ← h.openDocument, ← h.symbols, typesOf_via h, hreferenced]
  rfl

/-- The sweep of a file for which the question for symbols remains open finds nothing. -/
theorem sweepFile_eq (resolver : Resolver σ) (root path : String) :
    sweepFile resolver root path = (do
      match ← .ask (resolver.provider.askText path) with
      | .error _ => return []
      | .ok text =>
        let symbols ← .ask (resolver.provider.symbolsOrNone path)
        let doc : Document := ⟨path, languageIdOfPath path, text⟩
        sweepFunctions resolver root doc symbols (functionSymbols doc symbols)) := by
  have hnone : ∀ doc : Document, functionSymbols doc [] = [] := fun _ => List.mergeSort_nil
  funext s
  unfold sweepFile
  simp only [bind, StateT.bind, ResolverM.ask]
  rcases resolver.provider.askText path s.world with ⟨_ | text, v⟩
  · rfl
  · simp only [StateT.bind, bind, ResolverM.ask, Provider.symbolsOrNone_run]
    rcases resolver.provider.askSymbols path v with ⟨_ | (_ | symbols), w⟩
    -- Without symbols there is no function to go through.
    · dsimp only [SymbolAnswer.symbols]
      rw [hnone]
      rfl
    · rfl
    · rfl

theorem sweepFunctions_via {resolver : Resolver σ} (h : resolver.provider.FindsAlike q) (root : String)
    (doc : Document) (symbols : List Symbol) (listed : List (String × Span)) :
    sweepFunctions (resolver.via q) root doc symbols listed =
      sweepFunctions resolver root doc symbols listed := by
  induction listed with
  | nil => rfl
  | cons first more ih =>
    unfold sweepFunctions
    simp only [ih, Resolver.typesForFunction_via h]
    rfl

theorem sweepFile_via {resolver : Resolver σ} (h : resolver.provider.FindsAlike q) (root path : String) :
    sweepFile (resolver.via q) root path = sweepFile resolver root path := by
  rw [sweepFile_eq, sweepFile_eq]
  simp only [sweepFunctions_via h, h.text, h.symbols]
  rfl

theorem sweep_via (h : engine.provider.FindsAlike q) : (engine.via q).sweep = engine.sweep := by
  have hfile : ∀ root, sweepFile (Resolver.of q root engine.config) root =
      sweepFile (Resolver.of engine.provider root engine.config) root := by
    intro root
    have hsame : (Resolver.of engine.provider root engine.config).provider.FindsAlike q := h
    exact funext (sweepFile_via hsame root)
  unfold sweep
  simp only [via, hfile]
  rfl

/-- The engine with the list of the questions that are put to its provider. -/
def recorded (engine : Engine σ) : Engine (σ × List ProviderCall) where
  provider := engine.provider.recording
  disk s := engine.disk s.1
  root := engine.root
  config := engine.config

/-- **An open question is one in which nothing is found**, in whichever way it remains open: if open
answers are exchanged for other open ones, every extraction for a position and the sweep give the same
result, leave the provider in the same state, and put the same questions in the same order. -/
theorem extraction_disguised (engine : Engine σ) (d : Disguise) :
    (∀ request, (engine.recorded.via (engine.provider.disguised d)).gather request =
      engine.recorded.gather request) ∧
    (engine.recorded.via (engine.provider.disguised d)).sweep = engine.recorded.sweep := by
  have hsame := (engine.provider.findsAlike_disguised d).symm
  exact ⟨gather_via hsame, sweep_via hsame⟩

end Engine

/-- The disguise in which every question that remains open fails. -/
def Disguise.failing : Disguise where
  symbols _ _ answer := if answer.symbols.isEmpty then .error .refused else answer
  locations _ _ _ _ answer := if answer.locations.isEmpty then .error .refused else answer
  symbols_open _ _ answer := by
    split
    · rename_i hnone
      exact .inr ⟨SymbolAnswer.open_iff.mpr (List.isEmpty_iff.mp hnone), .failed _⟩
    · exact .inl rfl
  locations_open _ _ _ _ answer := by
    split
    · rename_i hnone
      exact .inr ⟨LocationAnswer.open_iff.mpr (List.isEmpty_iff.mp hnone), .failed _⟩
    · exact .inl rfl

/-- An engine whose provider knows a file with one function, and leaves every question for locations open
in a way of its own. -/
def openEngine : Engine Unit where
  provider :=
    { askSymbols := fun _ => pure (.ok (some [⟨"f", .function, .of 0 0 1 1, []⟩]))
      askLocations := fun what _ _ => pure <| .ok <| match what with
        | .definitions => some []
        | .typeDefinitions => some [none, some ⟨"", some (.of 0 0 0 1)⟩]
        | .declarations => some [some ⟨"/b.ts", none⟩]
        | .references => none
      askText := fun _ => pure (.ok "function f(a: A) \x7b\n\x7d\n") }
  disk := fun _ => {}
  root := some "/"
  config := {}

namespace Engine

/-- The questions for locations that the provider of `openEngine` answers fail in the disguise; the function
in its file is found all the same. -/
theorem extraction_disguised_failing :
    (∀ what, ((openEngine.provider.disguised .failing).askLocations what "/a.ts" ⟨0, 0⟩ ((), [])).1 =
      .error .refused) ∧
    (∀ request, (openEngine.recorded.via (openEngine.provider.disguised .failing)).gather request =
      openEngine.recorded.gather request) ∧
    (openEngine.recorded.via (openEngine.provider.disguised .failing)).sweep =
      openEngine.recorded.sweep ∧
    (openEngine.recorded.gather { path := "/a.ts", position := ⟨0, 9⟩ } ((), [])).1.isSome = true := by
  have hsame := extraction_disguised openEngine .failing
  refine ⟨fun what => ?_, hsame.1, hsame.2, ?_⟩
  · cases what <;> rfl
  · decide +kernel

end Engine

end Vicinity
