import Vicinity.Proofs.Resolver.Provenance
import Vicinity.Proofs.Resolver.Resolution

/-!
# One snapshot of each file

Files may change while a resolver is in use, between its operations and in the middle of one, and a file
that could be read may fail to be read later, or the other way round. A resolver does not notice: it asks
for the text of a file once, and goes on with what it got, be it a text or a failure. So its answers are
those that would be given if every file had stayed as it was when it was first asked for. The document that
an operation is given is no file; it is searched as it was given.

## What is proved

* `Simulation`: two resolvers that differ in their providers answer alike if questions and readings do.
* `Simulation.perform`, `Simulation.run`: every operation, and every sequence of operations and changes.
* `goesBy_of_lookup`: what has been read of a file is what readings, expansions and searches go by.
* `reads_each_file_once`: no file is asked for twice, and the answers are those of frozen files.
* `nested_search_in_given_text`: the names that a declaration uses are looked for in the document that an
  operation was given, also if the resolver has read another text of its file.
-/

namespace Vicinity

variable {σ τ : Type}

/-! ### Providers that remember texts -/

/-- The answers that have been given to questions for texts, the last one first. -/
abbrev TextLog := List (String × Except ProviderFailure String)

namespace Provider

/-- The provider that also keeps what it has answered to questions for texts. -/
def logging (p : Provider σ) : Provider (σ × TextLog) where
  askSymbols path := fun (w, log) =>
    let (answer, w) := p.askSymbols path w
    (answer, w, log)
  askLocations what path position := fun (w, log) =>
    let (answer, w) := p.askLocations what path position w
    (answer, w, log)
  askText path := fun (w, log) =>
    let (answer, w) := p.askText path w
    (answer, w, (path, answer) :: log)

/-- The provider with files that stay as they are first seen: a question for a text that has been put
before is answered as it was then. -/
def frozen (p : Provider σ) : Provider (σ × TextLog) :=
  { p.logging with
    askText := fun path (w, log) =>
      match log.lookup path with
      | some answer => (answer, w, log)
      | none => p.logging.askText path (w, log) }

theorem textOrNone_eq (p : Provider σ) (path : String) (w : σ) :
    p.textOrNone path w = ((p.askText path w).1.toOption, (p.askText path w).2) := by
  rw [textOrNone_run]
  cases (p.askText path w).1 <;> rfl

theorem locations_logging (p : Provider σ) (what : Lookup) (path : String) (position : Position)
    (w : σ) (log : TextLog) :
    p.logging.locations what path position (w, log) =
      ((p.locations what path position w).1, (p.locations what path position w).2, log) := by
  rw [locations_run, locations_run]
  rfl

theorem textOrNone_logging (p : Provider σ) (path : String) (w : σ) (log : TextLog) :
    p.logging.textOrNone path (w, log) = ((p.textOrNone path w).1, (p.textOrNone path w).2,
      (path, (p.askText path w).1) :: log) := by
  rw [textOrNone_eq, textOrNone_eq]
  rfl

theorem textOrNone_frozen {p : Provider σ} {path : String} {w : σ × TextLog}
    {answer : Except ProviderFailure String} (h : w.2.lookup path = some answer) :
    p.frozen.textOrNone path w = (answer.toOption, w) := by
  rw [textOrNone_eq]
  simp only [frozen, h]

theorem textOrNone_frozen_of_new {p : Provider σ} {path : String} {w : σ × TextLog}
    (h : w.2.lookup path = none) : p.frozen.textOrNone path w = p.logging.textOrNone path w := by
  rw [textOrNone_eq, textOrNone_eq]
  simp only [frozen, h]

theorem locations_frozen (p : Provider σ) : p.frozen.locations = p.logging.locations := rfl

end Provider

/-! ### Operations -/

/-- What a resolver can be asked to do. -/
inductive ResolverOperation where
  /-- The text of a file is read. -/
  | read (path : String)
  /-- The types of what stands at a position are looked for. -/
  | typesAt (doc : Document) (position : Position)
  /-- A name is resolved. -/
  | resolve (doc : Document) (name : List Char) (depth : Int) (visited : List (List Char))
  /-- The types of the identifiers of a unit of code are looked for. -/
  | typesForCandidates (doc : Document) (unit : CodeUnit)
  /-- The capitalized words of a unit of code are resolved. -/
  | typesForFunction (doc : Document) (unit : CodeUnit) (depth : Int)

/-- What an operation gives. -/
inductive ResolverAnswer where
  | text (text : Option String)
  | types (types : List TypeEntry)
  | resolved (types : List TypeEntry) (visited : List (List Char))
  deriving DecidableEq

/-- Something that happens while a resolver is in use. -/
inductive ResolverEvent (σ : Type) where
  /-- The provider's state changes: files are written or deleted, or fail from now on. -/
  | change (f : σ → σ)
  /-- The resolver is asked to do something. -/
  | perform (operation : ResolverOperation)

/-- The event with a provider that remembers texts; a change leaves what is remembered as it is. -/
def ResolverEvent.logged : ResolverEvent σ → ResolverEvent (σ × TextLog)
  | .change f => .change (Prod.map f id)
  | .perform operation => .perform operation

namespace Resolver

/-- Carries an operation out. -/
def perform (r : Resolver σ) : ResolverOperation → ResolverM σ ResolverAnswer
  | .read path => do return .text (← r.read path)
  | .typesAt doc position => do return .types (← r.typesAt doc position)
  | .resolve doc name depth visited => do
    let found ← r.resolve doc name depth visited
    return .resolved found.1 found.2
  | .typesForCandidates doc unit => do return .types (← r.typesForCandidates doc unit)
  | .typesForFunction doc unit depth => do return .types (← r.typesForFunction doc unit depth)

/-- The answers of one resolver to a sequence of events. -/
def run (r : Resolver σ) : List (ResolverEvent σ) → ResolverM σ (List ResolverAnswer)
  | [] => return []
  | .change f :: more => fun s => r.run more { s with world := f s.world }
  | .perform operation :: more => do
    let answer ← r.perform operation
    return answer :: (← r.run more)

/-- The answers to a sequence of events if a new resolver carries out each of the operations. -/
def runAnew (r : Resolver σ) : List (ResolverEvent σ) → StateM σ (List ResolverAnswer)
  | [] => return []
  | .change f :: more => fun w => r.runAnew more (f w)
  | .perform operation :: more => fun w =>
    let (answer, s) := r.perform operation ⟨w, []⟩
    let (answers, w) := r.runAnew more s.world
    (answer :: answers, w)

/-! ### Simulations -/

variable {r : Resolver σ} {p : Provider τ} {R : ResolverState σ → ResolverState τ → Prop}

theorem via_provider (r : Resolver σ) (p : Provider τ) : (r.via p).provider = p := rfl

/-- In related states, a resolver and the same one with another provider answer questions and read files
alike, and are in related states afterwards. -/
structure Simulation (r : Resolver σ) (p : Provider τ)
    (R : ResolverState σ → ResolverState τ → Prop) : Prop where
  ask : ∀ what path position s t, R s t →
    (p.locations what path position t.world).1 =
        (r.provider.locations what path position s.world).1 ∧
      R { s with world := (r.provider.locations what path position s.world).2 }
        { t with world := (p.locations what path position t.world).2 }
  read : ∀ path s t, R s t → ((r.via p).read path t).1 = (r.read path s).1 ∧
    R (r.read path s).2 ((r.via p).read path t).2

/-- In related states, two computations have the same answer and lead to related states. -/
def Follows (R : ResolverState σ → ResolverState τ → Prop) {α : Type} (m : ResolverM σ α)
    (m' : ResolverM τ α) : Prop :=
  ∀ s t, R s t → (m' t).1 = (m s).1 ∧ R (m s).2 (m' t).2

theorem Follows.bind {α β : Type} {m : ResolverM σ α} {m' : ResolverM τ α} {f : α → ResolverM σ β}
    {f' : α → ResolverM τ β} (hm : Follows R m m') (hf : ∀ a, Follows R (f a) (f' a)) :
    Follows R (m >>= f) (m' >>= f') := by
  intro s t hst
  obtain ⟨hval, hrel⟩ := hm s t hst
  have hnext := hf (m s).1 (m s).2 (m' t).2 hrel
  rw [← hval] at hnext
  show (f' (m' t).1 (m' t).2).1 = (f (m s).1 (m s).2).1 ∧
    R (f (m s).1 (m s).2).2 (f' (m' t).1 (m' t).2).2
  rw [← hval]
  exact hnext

theorem Follows.pure {α : Type} (a : α) : Follows R (Pure.pure a : ResolverM σ α) (Pure.pure a) :=
  fun _ _ hst => ⟨rfl, hst⟩

theorem Follows.mapM {α β : Type} {f : α → ResolverM σ β} {f' : α → ResolverM τ β}
    (hf : ∀ a, Follows R (f a) (f' a)) (as : List α) : Follows R (as.mapM f) (as.mapM f') := by
  induction as with
  | nil => exact .pure []
  | cons a as ih =>
    rw [List.mapM_cons, List.mapM_cons]
    exact (hf a).bind fun b => ih.bind fun bs => .pure (b :: bs)

/-- Computations that put questions and read files follow one another. -/
theorem Alike.follows (hR : Simulation r p R) {α : Type} {b : Lookup → Nat} {m : ResolverM σ α}
    {m' : ResolverM τ α} (h : Alike r p b m m') : Follows R m m' := by
  induction h with
  | pure a => exact .pure a
  | ask what path position _ => exact hR.ask what path position
  | read path => exact hR.read path
  | bind _ _ _ ihm ihf => exact ihm.bind ihf

/-- **A walk takes the same way** in related states. -/
theorem Visits.follows (hR : Simulation r p R) {origin : Document} {depth : Nat}
    {other : Option Document} {names : List (List Char)} {s t : Walk σ} {log : List Visit}
    (h : r.Visits origin depth other names s log t) :
    ∀ s', R s.toResolverState s' → ∃ t', R t.toResolverState t' ∧
      (r.via p).Visits origin depth other names ⟨s', s.visited⟩ log ⟨t', t.visited⟩ := by
  have hlook := fun other name => (alike_lookUp r p origin other name).follows hR
  induction h with
  | done => exact fun s' hs => ⟨s', hs, .done⟩
  | skip hpass _ ih =>
    intro s' hs
    obtain ⟨t', ht, hmore⟩ := ih s' hs
    exact ⟨t', ht, .skip hpass hmore⟩
  | @miss _ other name _ s _ _ _ fresh look _ ih =>
    intro s' hs
    obtain ⟨hval, hrel⟩ := hlook other name s.toResolverState s' hs
    rw [look] at hval hrel
    obtain ⟨t', ht, hmore⟩ := ih _ hrel
    exact ⟨t', ht, .miss fresh (Prod.ext hval rfl) hmore⟩
  | @hit _ other name _ s _ _ _ _ _ _ fresh look _ _ ihb ihm =>
    intro s' hs
    obtain ⟨hval, hrel⟩ := hlook other name s.toResolverState s' hs
    rw [look] at hval hrel
    obtain ⟨v', hv, hbelow⟩ := ihb _ hrel
    obtain ⟨t', ht, hmore⟩ := ihm _ hv
    exact ⟨t', ht, .hit fresh (Prod.ext hval rfl) hbelow hmore⟩

namespace Simulation

theorem resolve (hR : Simulation r p R) (doc : Document) (name : List Char) (depth : Int)
    (visited : List (List Char)) :
    Follows R (r.resolve doc name depth visited) ((r.via p).resolve doc name depth visited) := by
  intro s s' hs
  obtain ⟨log, t, h⟩ := r.exists_visits doc depth.toNat none [name] ⟨s, visited⟩
  obtain ⟨t', ht, h'⟩ := h.follows hR s' hs
  rw [resolve_eq r doc name depth visited s h, resolve_eq (r.via p) doc name depth visited s' h']
  exact ⟨rfl, ht⟩

theorem typesForFunction (hR : Simulation r p R) (doc : Document) (unit : CodeUnit) (depth : Int) :
    Follows R (r.typesForFunction doc unit depth) ((r.via p).typesForFunction doc unit depth) := by
  intro s s' hs
  obtain ⟨log, t, h⟩ := r.exists_visits doc depth.toNat none (customTypes unit.text.toList) ⟨s, []⟩
  obtain ⟨t', ht, h'⟩ := h.follows hR s' hs
  rw [typesForFunction_eq r doc s h, typesForFunction_eq (r.via p) doc s' h']
  exact ⟨rfl, ht⟩

theorem typesForCandidates (hR : Simulation r p R) (doc : Document) (unit : CodeUnit) :
    Follows R (r.typesForCandidates doc unit) ((r.via p).typesForCandidates doc unit) :=
  .bind (.mapM (fun candidate => (alike_firstTypesAt r p doc candidate.2).follows hR) unit.candidates)
    fun found => .pure (dedupeTypes found.flatten)

/-- **Every operation** gives the same in related states. -/
theorem perform (hR : Simulation r p R) (operation : ResolverOperation) :
    Follows R (r.perform operation) ((r.via p).perform operation) := by
  cases operation with
  | read path => exact .bind (hR.read path) fun _ => .pure _
  | typesAt doc position => exact .bind ((alike_typesAt r p doc position).follows hR) fun _ => .pure _
  | resolve doc name depth visited => exact .bind (hR.resolve doc name depth visited) fun _ => .pure _
  | typesForCandidates doc unit => exact .bind (hR.typesForCandidates doc unit) fun _ => .pure _
  | typesForFunction doc unit depth => exact .bind (hR.typesForFunction doc unit depth) fun _ => .pure _

variable {q : Provider (σ × TextLog)} {Q : ResolverState σ → ResolverState (σ × TextLog) → Prop}

/-- **Every sequence of events** gives the same in related states, if changes keep them related. -/
theorem run (hQ : Simulation r q Q)
    (hchange : ∀ f s t, Q s t → Q { s with world := f s.world } { t with world := t.world.map f id })
    (events : List (ResolverEvent σ)) :
    Follows Q (r.run events) ((r.via q).run (events.map .logged)) := by
  induction events with
  | nil => exact .pure []
  | cons event more ih =>
    cases event with
    | change f => exact fun s t hst => ih _ _ (hchange f s t hst)
    | perform operation =>
      exact (hQ.perform operation).bind fun answer => ih.bind fun answers => .pure (answer :: answers)

/-- So does carrying out each of the operations with a new resolver, if what a resolver has read may be
forgotten. -/
theorem runAnew (hQ : Simulation r q Q)
    (hchange : ∀ f s t, Q s t → Q { s with world := f s.world } { t with world := t.world.map f id })
    (hforget : ∀ s t, Q s t → Q s { t with texts := [] }) (events : List (ResolverEvent σ))
    {s : ResolverState σ} {w : σ × TextLog} (h : Q s ⟨w, []⟩) :
    ((r.via q).runAnew (events.map .logged) w).1 = (r.run events s).1 := by
  induction events generalizing s w with
  | nil => rfl
  | cons event more ih =>
    cases event with
    | change f => exact ih (hchange f s _ h)
    | perform operation =>
      obtain ⟨hanswer, hstate⟩ := hQ.perform operation s ⟨w, []⟩ h
      exact congrArg₂ List.cons hanswer (ih (hforget _ _ hstate))

end Simulation

/-! ### Resolvers whose provider remembers texts -/

variable {old : TextLog} {s : ResolverState σ} {t : ResolverState (σ × TextLog)}

/-- The state of a resolver and that of the same one whose provider keeps its answers: they have read the
same, each file once, and what they have read are the answers. Those of `old` are the first ones. -/
structure Logged (old : TextLog) (s : ResolverState σ) (t : ResolverState (σ × TextLog)) : Prop where
  world : t.world.1 = s.world
  texts : t.texts = s.texts
  answers : ∀ path answer, (path, answer) ∈ t.world.2 → s.texts.lookup path = some answer.toOption
  once : (t.world.2.map (·.1)).Nodup
  grows : old <:+ t.world.2

/-- The state of a resolver and that of one whose files stay as they are first seen, and which may have
forgotten some of what it has read: what the resolver has read of a file is how the file was first seen. -/
structure Frozen (s : ResolverState σ) (t : ResolverState (σ × TextLog)) : Prop where
  world : t.world.1 = s.world
  seen : ∀ path, s.texts.lookup path = (t.world.2.lookup path).map Except.toOption
  texts : ∀ path text, t.texts.lookup path = some text → s.texts.lookup path = some text

/-- Reading a file. -/
theorem Logged.read (h : Logged old s t) (path : String) :
    ((r.via r.provider.logging).read path t).1 = (r.read path s).1 ∧
      Logged old (r.read path s).2 ((r.via r.provider.logging).read path t).2 := by
  have hworld : t.world = (s.world, t.world.2) := Prod.ext h.world rfl
  have hkeeps := keeps_read r path s
  cases hs : s.texts.lookup path with
  | some text =>
    rw [read_of_lookup hs, read_of_lookup (h.texts ▸ hs)]
    exact ⟨rfl, h⟩
  | none =>
    rw [read_of_lookup_eq_none hs] at hkeeps
    rw [read_of_lookup_eq_none hs, read_of_lookup_eq_none (h.texts ▸ hs), hworld, via_provider,
      Provider.textOrNone_logging]
    refine ⟨rfl, rfl, congrArg (List.cons _) h.texts, fun other answer hmem => ?_, ?_,
      h.grows.trans (List.suffix_cons _ _)⟩
    · rcases List.mem_cons.mp hmem with heq | hmem
      · cases heq
        rw [Provider.textOrNone_eq]
        exact List.lookup_cons_self
      · exact hkeeps other _ (h.answers other answer hmem)
    · -- a file that has been asked for has been read
      refine List.nodup_cons.mpr ⟨fun hmem => ?_, h.once⟩
      obtain ⟨⟨other, answer⟩, hasked, rfl⟩ := List.mem_map.mp hmem
      rw [h.answers other answer hasked] at hs
      cases hs

theorem simulation_logging (r : Resolver σ) (old : TextLog) :
    Simulation r r.provider.logging (Logged old) where
  ask what path position s t h := by
    have hworld : t.world = (s.world, t.world.2) := Prod.ext h.world rfl
    rw [hworld, Provider.locations_logging]
    exact ⟨rfl, rfl, h.texts, h.answers, h.once, h.grows⟩
  read path s t h := h.read path

/-- Reading a file. -/
theorem Frozen.read (h : Frozen s t) (path : String) :
    ((r.via r.provider.frozen).read path t).1 = (r.read path s).1 ∧
      Frozen (r.read path s).2 ((r.via r.provider.frozen).read path t).2 := by
  have hworld : t.world = (s.world, t.world.2) := Prod.ext h.world rfl
  cases ht : t.texts.lookup path with
  | some text =>
    rw [read_of_lookup (h.texts path text ht), read_of_lookup ht]
    exact ⟨rfl, h⟩
  | none =>
    rw [read_of_lookup_eq_none ht, via_provider]
    have hseen := h.seen path
    cases hs : s.texts.lookup path with
    | some text =>
      rw [hs] at hseen
      obtain ⟨answer, hanswer, rfl⟩ := Option.map_eq_some_iff.mp hseen.symm
      rw [read_of_lookup hs, Provider.textOrNone_frozen hanswer]
      refine ⟨rfl, h.world, h.seen, fun other text hother => ?_⟩
      rw [List.lookup_cons] at hother
      split at hother
      · rename_i heq
        rw [beq_iff_eq.mp heq, hs, hother]
      · exact h.texts other text hother
    | none =>
      rw [hs] at hseen
      have hnew : t.world.2.lookup path = none := Option.map_eq_none_iff.mp hseen.symm
      rw [read_of_lookup_eq_none hs, Provider.textOrNone_frozen_of_new hnew, hworld,
        Provider.textOrNone_logging]
      refine ⟨rfl, rfl, fun other => ?_, fun other text hother => ?_⟩
      · rw [List.lookup_cons, List.lookup_cons, h.seen other, Provider.textOrNone_eq]
        cases other == path <;> rfl
      · rw [List.lookup_cons] at hother ⊢
        split at hother
        · exact hother
        · exact h.texts other text hother

theorem simulation_frozen (r : Resolver σ) : Simulation r r.provider.frozen Frozen where
  ask what path position s t h := by
    have hworld : t.world = (s.world, t.world.2) := Prod.ext h.world rfl
    rw [Provider.locations_frozen, hworld, Provider.locations_logging]
    exact ⟨rfl, rfl, h.seen, h.texts⟩
  read path s t h := h.read path

/-! ### Whole sequences -/

/-- The answers that the provider gives to questions for texts in the course of a sequence of events which
begins with a new resolver. -/
def textLog (r : Resolver σ) (events : List (ResolverEvent σ)) (w : σ) : TextLog :=
  ((r.via r.provider.logging).run (events.map .logged) ⟨(w, []), []⟩).2.world.2

/-- Whatever the resolver does with a file, it does with one text of it, and it finds nothing there if that
is none. -/
structure GoesBy (r : Resolver σ) (s : ResolverState σ) (path : String) (text : Option String) :
    Prop where
  /-- The file is read. -/
  read : r.read path s = (text, s)
  /-- A declaration in the file is expanded. -/
  expand : ∀ span, r.declarationAt ⟨path, span⟩ s =
    (text.bind fun text => expand? text.toList span (languageFamily (languageIdOfPath path)), s)
  /-- The names that a declaration in the file uses are looked for in it, after the origin; and in the
  origin alone, as it was given, if it is the document of the file. -/
  search : ∀ origin span, r.declaringDocument origin ⟨path, span⟩ s =
    (if path = origin.path then none
      else text.map fun text => ⟨path, languageIdOfPath path, text⟩, s)

theorem goesBy_of_lookup {path : String} {text : Option String}
    (h : s.texts.lookup path = some text) : r.GoesBy s path text := by
  have hread := read_of_lookup (r := r) h
  refine ⟨hread, fun span => ?_, fun origin span => ?_⟩
  · unfold declarationAt
    simp only [bind, StateT.bind, hread]
    cases text <;> rfl
  · unfold declaringDocument
    by_cases hsame : path = origin.path
    · rw [if_pos hsame, if_pos hsame]
      rfl
    · simp only [if_neg hsame, bind, StateT.bind, hread]
      cases text <;> rfl

theorem run_append (r : Resolver σ) (events more : List (ResolverEvent σ)) (s : ResolverState σ) :
    (r.run (events ++ more) s).2 = (r.run more (r.run events s).2).2 := by
  induction events generalizing s with
  | nil => rfl
  | cons event events ih =>
    cases event with
    | change f => exact ih _
    | perform operation => exact ih _

/-- What the resolver has read is related to what its provider has answered. -/
theorem logged_run (r : Resolver σ) (events : List (ResolverEvent σ)) (h : Logged old s t) :
    ((r.via r.provider.logging).run (events.map .logged) t).1 = (r.run events s).1 ∧
      Logged old (r.run events s).2 ((r.via r.provider.logging).run (events.map .logged) t).2 :=
  (simulation_logging r old).run
    (fun f _ _ hst => ⟨congrArg f hst.world, hst.texts, hst.answers, hst.once, hst.grows⟩) events s t h

/-- **Each file is read once.** In any sequence of operations and changes, the provider is asked at most
once for the text of a file. What it answers, be it a text or a failure, is what the resolver goes by
from then on, whatever happens. And all its answers are those that new resolvers would give, one for
each operation, if the files stayed as they were first seen. -/
theorem reads_each_file_once (r : Resolver σ) (events more : List (ResolverEvent σ)) (w : σ) :
    ((r.via r.provider.logging).run (events.map .logged) ⟨(w, []), []⟩).1 = (r.run events ⟨w, []⟩).1 ∧
    ((r.textLog events w).map (·.1)).Nodup ∧
    (∀ path answer, (path, answer) ∈ r.textLog events w →
      r.GoesBy (r.run (events ++ more) ⟨w, []⟩).2 path answer.toOption) ∧
    ((r.via r.provider.frozen).runAnew (events.map .logged) (w, [])).1 = (r.run events ⟨w, []⟩).1 := by
  have hnew : Logged [] (⟨w, []⟩ : ResolverState σ) ⟨(w, []), []⟩ :=
    ⟨rfl, rfl, fun _ _ h => absurd h List.not_mem_nil, List.nodup_nil, List.suffix_rfl⟩
  obtain ⟨hanswers, hlogged⟩ := logged_run r events hnew
  refine ⟨hanswers, hlogged.once, fun path answer hasked => ?_, ?_⟩
  · -- the answers given so far are the first ones of those given in the end
    have hthen := (logged_run r more { hlogged with grows := List.suffix_rfl }).2
    rw [run_append]
    exact goesBy_of_lookup (hthen.answers path answer (hthen.grows.subset hasked))
  · exact (simulation_frozen r).runAnew (fun f _ _ hst => ⟨congrArg f hst.world, hst.seen, hst.texts⟩)
      (fun _ _ hst => ⟨hst.world, hst.seen, fun _ _ h => by cases h⟩) events
      ⟨rfl, fun _ => rfl, fun _ _ h => by cases h⟩

/-- A type and one that it uses. -/
def nestedText : String := "interface Top \x7b\n  end: End\n\x7d\ninterface End \x7b\n\x7d"

/-- A file with these types. -/
def nestedFile : AnswerTables :=
  .ofTypes [("/a.ts", nestedText)] [("Top", "/a.ts", .of 0 10 0 13), ("End", "/a.ts", .of 3 10 3 13)]

/-- The names of the types found for `Top` after the file has been read, in a document of the file that
has the given text. -/
def namesAfterReading (text : String) : List String :=
  AnswerTables.resolver.resolvedNames ⟨"/a.ts", "typescript", text⟩ "Top".toList 2
    (AnswerTables.resolver.read "/a.ts" ⟨nestedFile, []⟩).2

/-- **The document that is given is searched as it was given**, even if the resolver has read its file:
with another text of it, the types that a declaration of the file uses need not be found. -/
theorem nested_search_in_given_text :
    (AnswerTables.resolver.read "/a.ts" ⟨nestedFile, []⟩).1 = some nestedText ∧
      namesAfterReading nestedText = ["Top", "End"] ∧
      namesAfterReading "interface Top \x7b\n\x7d" = ["Top"] := by
  decide +kernel

end Resolver

end Vicinity
