import Vicinity.Resolver

/-!
# What resolving asks

All that resolving does to the world is to put questions about positions to the provider and to read
files. `Alike r p b m m'` says that a computation `m` of the resolver `r` is built from nothing else,
that `m'` is the same computation with the provider `p` in place of the resolver's own, and that at most
`b what` questions of each kind are put on any way through it. It is shown once of each operation; what
holds of questions and readings then holds of the operations by induction.

## What is proved

* `Alike.keeps`: what has been read is never read again with another outcome.
* `Alike.recording`: a resolver whose provider keeps the list of questions answers as before, and the
  list grows by at most `b what` questions of each kind.
* `alike_lookUp`, `alike_typesAt`: looking a name up takes at most two questions for definitions of types
  and two for definitions, finding the types at a position at most one of each, and none of another kind.
* `lookUp_eq_some`: what is found for a name is the declaration that stands, in the text as it was
  read, around a location that is not left out.
-/

namespace Vicinity

theorem Provider.locations_run {σ : Type} (p : Provider σ) (what : Lookup) (path : String)
    (position : Position) (w : σ) :
    p.locations what path position w =
      (match (p.askLocations what path position w).1 with
        | .ok (some found) => found.filterMap location?
        | _ => [],
        (p.askLocations what path position w).2) := by
  unfold locations
  simp only [bind, StateT.bind]
  rcases p.askLocations what path position w with ⟨_ | (_ | _), _⟩ <;> rfl

theorem Provider.textOrNone_run {σ : Type} (p : Provider σ) (path : String) (w : σ) :
    p.textOrNone path w =
      (match (p.askText path w).1 with
        | .ok text => some text
        | .error _ => none,
        (p.askText path w).2) := by
  unfold textOrNone
  simp only [bind, StateT.bind]
  rcases p.askText path w with ⟨_ | _, _⟩ <;> rfl

/-- The provider may give the location in answer to a question. -/
def Provider.Answers {σ : Type} (p : Provider σ) (location : Location) : Prop :=
  ∃ what path position w, location ∈ (p.locations what path position w).1

/-- A location without a path is no answer. -/
theorem Provider.path_ne_of_mem_locations {σ : Type} {p : Provider σ} {what : Lookup} {path : String}
    {position : Position} {w : σ} {location : Location}
    (h : location ∈ (p.locations what path position w).1) : location.path ≠ "" := by
  rw [locations_run] at h
  generalize (p.askLocations what path position w).1 = answer at h
  rcases answer with _ | (_ | found)
  · exact absurd h List.not_mem_nil
  · exact absurd h List.not_mem_nil
  · obtain ⟨raw, -, hraw⟩ := List.mem_filterMap.mp h
    unfold location? at hraw
    split at hraw
    · split at hraw
      · cases hraw
      · rename_i hpath
        cases hraw
        simpa using hpath
    · cases hraw

theorem Provider.Answers.path_ne {σ : Type} {p : Provider σ} {location : Location}
    (h : p.Answers location) : location.path ≠ "" := by
  obtain ⟨what, path, position, w, hmem⟩ := h
  exact path_ne_of_mem_locations hmem

/-- Whether a question asks for locations of the given kind. -/
def ProviderCall.asksFor (what : Lookup) : ProviderCall → Bool
  | .locations kind _ _ => kind = what
  | _ => false

/-- Whether a question is about a position. -/
def ProviderCall.isAboutPosition : ProviderCall → Bool
  | .locations _ _ _ => true
  | _ => false

theorem filter_isAboutPosition_eq_nil {calls : List ProviderCall}
    (h : ∀ what, calls.countP (ProviderCall.asksFor what) ≤ 0) :
    calls.filter ProviderCall.isAboutPosition = [] := by
  rw [List.filter_eq_nil_iff]
  intro call hcall habout
  cases call with
  | symbols path => cases habout
  | text path => cases habout
  | locations what path position =>
    have hnone := List.countP_eq_zero.mp (Nat.le_zero.mp (h what)) _ hcall
    simp [ProviderCall.asksFor] at hnone

/-- What has been read in the state `s` is still the same in the state `t`. -/
def ResolverState.Keeps {σ : Type} (s t : ResolverState σ) : Prop :=
  ∀ path text, s.texts.lookup path = some text → t.texts.lookup path = some text

theorem ResolverState.Keeps.refl {σ : Type} (s : ResolverState σ) : s.Keeps s := fun _ _ h => h

theorem ResolverState.Keeps.trans {σ : Type} {s t u : ResolverState σ} (h₁ : s.Keeps t)
    (h₂ : t.Keeps u) : s.Keeps u := fun path text h => h₂ path text (h₁ path text h)

/-- The state with a list of the questions put so far. -/
def ResolverState.recorded {σ : Type} (s : ResolverState σ) (calls : List ProviderCall) :
    ResolverState (σ × List ProviderCall) :=
  ⟨(s.world, calls), s.texts⟩

namespace Resolver

variable {σ τ : Type} (r : Resolver σ) (p : Provider τ)

/-- The resolver with another provider. -/
def via : Resolver τ := { provider := p, root := r.root, config := r.config }

/-- Two computations, of a resolver and of the same resolver with another provider, that put the same
questions and go on alike with the answers, at most `b what` questions of each kind. -/
inductive Alike : {α : Type} → (Lookup → Nat) → ResolverM σ α → ResolverM τ α → Prop where
  /-- Nothing is asked. -/
  | pure {α : Type} {b : Lookup → Nat} (a : α) : Alike b (pure a) (pure a)
  /-- A question about a position. -/
  | ask {b : Lookup → Nat} (what : Lookup) (path : String) (position : Position) (h : 1 ≤ b what) :
      Alike b (.ask (r.provider.locations what path position)) (.ask (p.locations what path position))
  /-- A reading of a file. -/
  | read {b : Lookup → Nat} (path : String) : Alike b (r.read path) ((r.via p).read path)
  /-- One computation and then another that depends on its answer. -/
  | bind {α β : Type} {b c d : Lookup → Nat} {m : ResolverM σ α} {m' : ResolverM τ α}
      {f : α → ResolverM σ β} {f' : α → ResolverM τ β} (hm : Alike b m m')
      (hf : ∀ a, Alike c (f a) (f' a)) (h : ∀ what, b what + c what ≤ d what) :
      Alike d (m >>= f) (m' >>= f')

variable {r p}

/-! ### What holds of questions and readings -/

theorem read_of_lookup {path : String} {text : Option String} {s : ResolverState σ}
    (h : s.texts.lookup path = some text) : r.read path s = (text, s) := by
  unfold read
  simp only [bind, StateT.bind, get, getThe, MonadStateOf.get, StateT.get, pure, h]
  rfl

theorem read_of_lookup_eq_none {path : String} {s : ResolverState σ}
    (h : s.texts.lookup path = none) :
    r.read path s =
      ((r.provider.textOrNone path s.world).1,
        ⟨(r.provider.textOrNone path s.world).2,
          (path, (r.provider.textOrNone path s.world).1) :: s.texts⟩) := by
  unfold read
  simp only [bind, StateT.bind, get, getThe, MonadStateOf.get, StateT.get, pure, h]
  rfl

/-- What is read is what the resolver remembers of the file from then on. -/
theorem lookup_read (r : Resolver σ) (path : String) (s : ResolverState σ) :
    (r.read path s).2.texts.lookup path = some (r.read path s).1 := by
  cases h : s.texts.lookup path with
  | none => rw [read_of_lookup_eq_none h]; simp
  | some text => rw [read_of_lookup h]; exact h

theorem keeps_read (r : Resolver σ) (path : String) (s : ResolverState σ) :
    s.Keeps (r.read path s).2 := by
  intro other text hother
  cases h : s.texts.lookup path with
  | some _ => rw [read_of_lookup h]; exact hother
  | none =>
    rw [read_of_lookup_eq_none h]
    have hne : (other == path) = false := by
      refine beq_false_of_ne fun e => ?_
      rw [e, h] at hother
      cases hother
    simpa only [List.lookup_cons, hne] using hother

/-- **What has been read stays**: no computation reads a file again with another outcome. -/
theorem Alike.keeps {α : Type} {b : Lookup → Nat} {m : ResolverM σ α} {m' : ResolverM τ α}
    (h : Alike r p b m m') : ∀ s : ResolverState σ, s.Keeps (m s).2 := by
  induction h with
  | pure a => exact fun s => .refl s
  | ask what path position _ => exact fun s _ _ hs => hs
  | read path => exact keeps_read r path
  | bind _ _ _ ihm ihf => exact fun s => (ihm s).trans (ihf _ _)

theorem locations_recording (q : Provider σ) (what : Lookup) (path : String) (position : Position)
    (w : σ) (calls : List ProviderCall) :
    q.recording.locations what path position (w, calls) =
      ((q.locations what path position w).1, (q.locations what path position w).2,
        calls ++ [.locations what path position]) := by
  rw [Provider.locations_run, Provider.locations_run]
  rfl

theorem textOrNone_recording (q : Provider σ) (path : String) (w : σ) (calls : List ProviderCall) :
    q.recording.textOrNone path (w, calls) =
      ((q.textOrNone path w).1, (q.textOrNone path w).2, calls ++ [.text path]) := by
  rw [Provider.textOrNone_run, Provider.textOrNone_run]
  rfl

/-- **Keeping a list of the questions changes no answer**, and the list grows by no more questions than
the computation may put. -/
theorem Alike.recording {α : Type} {b : Lookup → Nat} {m : ResolverM σ α}
    {m' : ResolverM (σ × List ProviderCall) α} (h : Alike r r.provider.recording b m m') :
    ∀ (s : ResolverState σ) (calls : List ProviderCall), ∃ more,
      m' (s.recorded calls) = ((m s).1, (m s).2.recorded (calls ++ more)) ∧
        ∀ what, more.countP (ProviderCall.asksFor what) ≤ b what := by
  induction h with
  | pure a => exact fun s calls => ⟨[], by rw [List.append_nil]; rfl, fun _ => Nat.zero_le _⟩
  | @ask b what path position hb =>
    intro s calls
    refine ⟨[.locations what path position], ?_, fun kind => ?_⟩
    · exact congrArg (fun x => (x.1, (⟨x.2, s.texts⟩ : ResolverState _)))
        (locations_recording r.provider what path position s.world calls)
    · by_cases hk : what = kind
      · subst hk; simpa [ProviderCall.asksFor] using hb
      · simp [ProviderCall.asksFor, hk]
  | read path =>
    intro s calls
    cases hs : s.texts.lookup path with
    | some text =>
      have hs' : (s.recorded calls).texts.lookup path = some text := hs
      refine ⟨[], ?_, fun _ => Nat.zero_le _⟩
      rw [read_of_lookup hs, read_of_lookup hs', List.append_nil]
    | none =>
      have hs' : (s.recorded calls).texts.lookup path = none := hs
      refine ⟨[.text path], ?_, fun _ => by simp [ProviderCall.asksFor]⟩
      rw [read_of_lookup_eq_none hs, read_of_lookup_eq_none hs']
      exact congrArg (fun x => (x.1, (⟨x.2, (path, x.1) :: s.texts⟩ : ResolverState _)))
        (textOrNone_recording r.provider path s.world calls)
  | @bind _ _ b c d m m' f f' _ _ hle ihm ihf =>
    intro s calls
    obtain ⟨more, hm, hcount⟩ := ihm s calls
    obtain ⟨more', hf, hcount'⟩ := ihf (m s).1 (m s).2 (calls ++ more)
    refine ⟨more ++ more', ?_, fun what => ?_⟩
    · calc (m' >>= f') (s.recorded calls)
          = f' (m' (s.recorded calls)).1 (m' (s.recorded calls)).2 := rfl
        _ = f' (m s).1 ((m s).2.recorded (calls ++ more)) := by rw [hm]
        _ = _ := by rw [hf, List.append_assoc]; rfl
    · rw [List.countP_append]
      exact Nat.le_trans (Nat.add_le_add (hcount what) (hcount' what)) (hle what)

/-! ### The operations -/

theorem Alike.mono {α : Type} {b c : Lookup → Nat} {m : ResolverM σ α} {m' : ResolverM τ α}
    (h : Alike r p b m m') (hb : ∀ what, b what ≤ c what) : Alike r p c m m' := by
  cases h with
  | pure a => exact .pure a
  | ask what path position h => exact .ask what path position (Nat.le_trans h (hb what))
  | read path => exact .read path
  | bind hm hf h => exact .bind hm hf fun what => Nat.le_trans (h what) (hb what)

variable (r p)

theorem alike_declarationAt (location : Location) :
    Alike r p (fun _ => 0) (r.declarationAt location) ((r.via p).declarationAt location) := by
  refine .bind (b := fun _ => 0) (c := fun _ => 0) (.read location.path) (fun text => ?_)
    (fun _ => Nat.le_refl 0)
  cases text with
  | none => exact .pure none
  | some text => exact .pure _

theorem alike_declaringDocument (origin : Document) (location : Location) :
    Alike r p (fun _ => 0) (r.declaringDocument origin location)
      ((r.via p).declaringDocument origin location) := by
  unfold declaringDocument
  split
  · exact .pure none
  · refine .bind (b := fun _ => 0) (c := fun _ => 0) (.read location.path) (fun text => ?_)
      (fun _ => Nat.le_refl 0)
    cases text with
    | none => exact .pure none
    | some text => exact .pure _

/-- At most one question of each of the kinds. -/
theorem alike_firstAnswer (path : String) (position : Position) (kinds : List Lookup) :
    Alike r p (fun what => kinds.count what) (r.firstAnswer path position kinds)
      ((r.via p).firstAnswer path position kinds) := by
  induction kinds with
  | nil => exact .pure none
  | cons kind kinds ih =>
    unfold firstAnswer
    refine .bind (b := fun what => if kind = what then 1 else 0) (c := fun what => kinds.count what)
      (.ask kind path position (by simp)) (fun found => ?_) (fun what => ?_)
    · have hsame : (r.via p).isIgnored = r.isIgnored := rfl
      rw [hsame]
      cases found.find? fun location => !r.isIgnored location.path with
      | some location => exact .pure _
      | none => exact ih
    · rw [List.count_cons, Nat.add_comm]
      simp

/-- At most one question of either kind for each of the documents. -/
theorem alike_definingLocation (name : List Char) (docs : List Document) :
    Alike r p (fun what => docs.length * [Lookup.typeDefinitions, .definitions].count what)
      (r.definingLocation name docs) ((r.via p).definingLocation name docs) := by
  induction docs with
  | nil => exact .pure none
  | cons doc docs ih =>
    have hmore := ih.mono (c := fun what =>
      (doc :: docs).length * [Lookup.typeDefinitions, .definitions].count what)
      fun what => Nat.mul_le_mul_right _ (Nat.le_succ docs.length)
    unfold definingLocation
    cases firstOccurrence doc name with
    | none => exact hmore
    | some position =>
      refine .bind (alike_firstAnswer r p doc.path position _) (c := fun what =>
        docs.length * [Lookup.typeDefinitions, .definitions].count what) (fun found => ?_)
        (fun what => ?_)
      · cases found with
        | some location => exact .pure _
        | none => exact ih
      · refine Nat.le_of_eq ?_
        rw [List.length_cons, Nat.succ_mul, Nat.add_comm]

/-- Looking a name up asks where it is defined; what follows only reads files. -/
theorem exists_lookUp_eq (origin : Document) (other : Option Document) (name : List Char) :
    ∃ f f', r.lookUp origin other name = r.definingLocation name (origin :: other.toList) >>= f ∧
      (r.via p).lookUp origin other name =
        (r.via p).definingLocation name (origin :: other.toList) >>= f' ∧
      ∀ found, Alike r p (fun _ => 0) (f found) (f' found) := by
  refine ⟨_, _, rfl, rfl, fun found => ?_⟩
  cases found with
  | none => exact .pure none
  | some location =>
    refine .bind (c := fun _ => 0) (alike_declarationAt r p location) (fun declaration => ?_)
      (fun _ => Nat.le_refl 0)
    cases declaration with
    | none => exact .pure none
    | some declaration =>
      exact .bind (c := fun _ => 0) (alike_declaringDocument r p origin location)
        (fun declaring => .pure _) (fun _ => Nat.le_refl 0)

/-- **Looking a name up** takes at most two questions for definitions of types, at most two for
definitions, and no other question about positions. -/
theorem alike_lookUp (origin : Document) (other : Option Document) (name : List Char) :
    Alike r p (fun what => 2 * [Lookup.typeDefinitions, .definitions].count what)
      (r.lookUp origin other name) ((r.via p).lookUp origin other name) := by
  have hdocs : (origin :: other.toList).length ≤ 2 := by cases other <;> simp
  obtain ⟨f, f', hrun, hrun', halike⟩ := exists_lookUp_eq r p origin other name
  rw [hrun, hrun']
  exact .bind ((alike_definingLocation r p name (origin :: other.toList)).mono
    fun what => Nat.mul_le_mul_right _ hdocs) halike (fun _ => Nat.le_refl _)

theorem alike_entriesAt (locations : List Location) :
    Alike r p (fun _ => 0) (r.entriesAt locations) ((r.via p).entriesAt locations) := by
  induction locations with
  | nil => exact .pure []
  | cons location more ih =>
    unfold entriesAt
    have hsame : (r.via p).isIgnored = r.isIgnored := rfl
    rw [hsame]
    split
    · exact ih
    · refine .bind (c := fun _ => 0) (alike_declarationAt r p location) (fun declaration => ?_)
        (fun _ => Nat.le_refl 0)
      cases declaration with
      | none => exact ih
      | some declaration =>
        exact .bind (c := fun _ => 0) ih (fun rest => .pure _) (fun _ => Nat.le_refl 0)

/-- One question of the kind. -/
theorem alike_typesBy (what : Lookup) (doc : Document) (position : Position) :
    Alike r p (fun kind => [what].count kind) (r.typesBy what doc position)
      ((r.via p).typesBy what doc position) := by
  refine .bind (c := fun _ => 0) (.ask what doc.path position (Nat.le_of_eq List.count_singleton_self.symm)) (fun found => ?_)
    (fun _ => Nat.le_refl _)
  exact .bind (c := fun _ => 0) (alike_entriesAt r p found) (fun types => .pure _)
    (fun _ => Nat.le_refl 0)

/-- **The types at a position** take at most one question for definitions of types and one for
definitions. -/
theorem alike_typesAt (doc : Document) (position : Position) :
    Alike r p (fun kind => [Lookup.typeDefinitions, .definitions].count kind)
      (r.typesAt doc position) ((r.via p).typesAt doc position) := by
  refine .bind (c := fun kind => [Lookup.definitions].count kind)
    (alike_typesBy r p .typeDefinitions doc position) (fun types => ?_) (fun kind => ?_)
  · split
    · exact alike_typesBy r p .definitions doc position
    · exact .pure types
  · rw [← List.count_append]
    exact Nat.le_refl _

theorem alike_firstTypesAt (doc : Document) (positions : List Position) :
    Alike r p (fun kind => positions.length * [Lookup.typeDefinitions, .definitions].count kind)
      (r.firstTypesAt doc positions) ((r.via p).firstTypesAt doc positions) := by
  induction positions with
  | nil => exact .pure []
  | cons position more ih =>
    refine .bind (alike_typesAt r p doc position) (fun types => ?_) (fun kind => ?_)
      (c := fun kind => more.length * [Lookup.typeDefinitions, .definitions].count kind)
    · split
      · exact ih
      · exact .pure types
    · refine Nat.le_of_eq ?_
      rw [List.length_cons, Nat.succ_mul, Nat.add_comm]

/-! ### What is found -/

/-- The declaration of a finding stands around its location, which is not left out, in the text that
has been read. -/
def Stands (s : ResolverState σ) (found : Finding) : Prop :=
  r.isIgnored found.location.path = false ∧
    ∃ text : String, s.texts.lookup found.location.path = some (some text) ∧
      expand? text.toList found.location.span
        (languageFamily (languageIdOfPath found.location.path)) = some found.declaration

theorem Stands.keeps {r : Resolver σ} {s t : ResolverState σ} {found : Finding}
    (h : r.Stands s found) (hk : s.Keeps t) : r.Stands t found := by
  obtain ⟨hign, text, htext, hexpand⟩ := h
  exact ⟨hign, text, hk _ _ htext, hexpand⟩

theorem firstAnswer_cons (path : String) (position : Position) (kind : Lookup) (kinds : List Lookup)
    (s : ResolverState σ) :
    r.firstAnswer path position (kind :: kinds) s =
      match (r.provider.locations kind path position s.world).1.find? fun location =>
        !r.isIgnored location.path with
      | some location => (some location, ⟨(r.provider.locations kind path position s.world).2, s.texts⟩)
      | none => r.firstAnswer path position kinds
          ⟨(r.provider.locations kind path position s.world).2, s.texts⟩ := by
  rw [firstAnswer]
  simp only [bind, StateT.bind, ResolverM.ask]
  rcases r.provider.locations kind path position s.world with ⟨found, w⟩
  cases h : found.find? fun location => !r.isIgnored location.path with
  | some _ =>
    simp only [h]
    rfl
  | none => simp only [h]

theorem definingLocation_cons (name : List Char) (doc : Document) (docs : List Document)
    (s : ResolverState σ) :
    r.definingLocation name (doc :: docs) s =
      match firstOccurrence doc name with
      | none => r.definingLocation name docs s
      | some position =>
        match r.firstAnswer doc.path position [.typeDefinitions, .definitions] s with
        | (some location, t) => (some location, t)
        | (none, t) => r.definingLocation name docs t := by
  rw [definingLocation]
  cases firstOccurrence doc name with
  | none => rfl
  | some position =>
    rcases h : r.firstAnswer doc.path position [.typeDefinitions, .definitions] s with ⟨_ | _, _⟩
    · simp only [bind, StateT.bind, h]
    · simp only [bind, StateT.bind, h]; rfl

/-- A location that is found has been given in answer to one of the questions, and it is not left out. -/
theorem mem_locations_of_firstAnswer {path : String} {position : Position} {kinds : List Lookup}
    {s : ResolverState σ} {location : Location}
    (h : (r.firstAnswer path position kinds s).1 = some location) :
    (∃ what ∈ kinds, ∃ w, location ∈ (r.provider.locations what path position w).1) ∧
      r.isIgnored location.path = false := by
  induction kinds generalizing s with
  | nil => cases h
  | cons kind kinds ih =>
    rw [firstAnswer_cons] at h
    split at h
    · rename_i hfind
      cases h
      exact ⟨⟨kind, List.mem_cons_self, s.world, List.mem_of_find?_eq_some hfind⟩,
        by simpa using List.find?_some hfind⟩
    · obtain ⟨⟨what, hwhat, hmem⟩, hign⟩ := ih h
      exact ⟨⟨what, List.mem_cons_of_mem _ hwhat, hmem⟩, hign⟩

theorem answers_of_firstAnswer {path : String} {position : Position} {kinds : List Lookup}
    {s : ResolverState σ} {location : Location}
    (h : (r.firstAnswer path position kinds s).1 = some location) :
    r.provider.Answers location ∧ r.isIgnored location.path = false := by
  obtain ⟨⟨what, -, w, hmem⟩, hign⟩ := mem_locations_of_firstAnswer r h
  exact ⟨⟨what, path, position, w, hmem⟩, hign⟩

theorem answers_of_definingLocation {name : List Char} {docs : List Document}
    {s : ResolverState σ} {location : Location}
    (h : (r.definingLocation name docs s).1 = some location) :
    r.provider.Answers location ∧ r.isIgnored location.path = false := by
  induction docs generalizing s with
  | nil => cases h
  | cons doc docs ih =>
    rw [definingLocation_cons] at h
    split at h
    · exact ih h
    · split at h
      · rename_i hfirst
        cases h
        exact answers_of_firstAnswer r (congrArg Prod.fst hfirst)
      · exact ih h

theorem declarationAt_run (location : Location) (s : ResolverState σ) :
    r.declarationAt location s =
      match r.read location.path s with
      | (some text, t) =>
        (expand? text.toList location.span (languageFamily (languageIdOfPath location.path)), t)
      | (none, t) => (none, t) := by
  unfold declarationAt
  simp only [bind, StateT.bind]
  rcases r.read location.path s with ⟨_ | _, _⟩ <;> rfl

/-- The declaration around a location that is not left out stands in the text that has been read for
it, whatever it has been looked for. -/
theorem stands_of_declarationAt {location : Location} {declaration : Declaration}
    {s : ResolverState σ} (hign : r.isIgnored location.path = false)
    (h : (r.declarationAt location s).1 = some declaration) (name : List Char)
    (declaring : Option Document) :
    r.Stands (r.declarationAt location s).2 ⟨name, location, declaration, declaring⟩ := by
  have hread := lookup_read r location.path s
  rw [declarationAt_run] at h ⊢
  rcases hr : r.read location.path s with ⟨_ | text, u⟩
  · rw [hr] at h
    cases h
  · rw [hr] at h hread
    dsimp only at h hread ⊢
    exact ⟨hign, text, hread, h⟩

theorem lookUp_run (origin : Document) (other : Option Document) (name : List Char)
    (s : ResolverState σ) :
    r.lookUp origin other name s =
      match r.definingLocation name (origin :: other.toList) s with
      | (none, t) => (none, t)
      | (some location, t) =>
        match r.declarationAt location t with
        | (none, u) => (none, u)
        | (some declaration, u) =>
          (some ⟨name, location, declaration, (r.declaringDocument origin location u).1⟩,
            (r.declaringDocument origin location u).2) := by
  unfold lookUp
  simp only [bind, StateT.bind]
  rcases r.definingLocation name (origin :: other.toList) s with ⟨_ | location, t⟩
  · rfl
  · simp only [StateT.bind]
    rcases r.declarationAt location t with ⟨_ | declaration, u⟩ <;> rfl

/-- **What is found for a name** is the declaration that stands where the name is defined. -/
theorem lookUp_eq_some {origin : Document} {other : Option Document} {name : List Char}
    {s : ResolverState σ} {found : Finding} (h : (r.lookUp origin other name s).1 = some found) :
    found.name = name ∧
      (r.definingLocation name (origin :: other.toList) s).1 = some found.location ∧
      (found.location.path = origin.path → found.declaring = none) ∧
      r.Stands (r.lookUp origin other name s).2 found := by
  rw [lookUp_run] at h ⊢
  rcases hloc : r.definingLocation name (origin :: other.toList) s with ⟨_ | location, t⟩
  · rw [hloc] at h
    cases h
  · rw [hloc] at h
    simp only at h ⊢
    rcases hdecl : r.declarationAt location t with ⟨_ | declaration, u⟩
    · rw [hdecl] at h
      cases h
    · rw [hdecl] at h
      cases h
      refine ⟨rfl, rfl, fun hpath => ?_, ?_⟩
      · show (r.declaringDocument origin location u).1 = none
        unfold declaringDocument
        rw [if_pos hpath]
        rfl
      · have hign := (answers_of_definingLocation r (congrArg Prod.fst hloc)).2
        have hstands := r.stands_of_declarationAt hign (congrArg Prod.fst hdecl) name
          (r.declaringDocument origin location u).1
        rw [hdecl] at hstands
        exact hstands.keeps ((alike_declaringDocument r r.provider origin location).keeps u)

end Resolver

end Vicinity
