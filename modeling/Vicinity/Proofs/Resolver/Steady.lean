import Vicinity.Proofs.Resolver.Resolution
import Vicinity.Provider.Tables

/-!
# Steady providers

A provider is steady from a state on if it answers each question the same way throughout, whatever has
been asked in between; its state may change all the same. A resolver is steady if its provider is and
what it remembers of the files is what the provider answers.

## What is proved

* `Alike.fixed`: a computation that puts questions and reads files has a fixed answer.
* `Visits.result_eq`: a walk finds for each name what looking it up gives at the start.
-/

namespace Vicinity

variable {σ τ : Type}

/-- The states to which questions lead. -/
inductive Provider.Reaches (p : Provider σ) (w : σ) : σ → Prop where
  /-- Nothing has been asked. -/
  | refl : Reaches p w w
  /-- The symbols of a document are asked for. -/
  | symbols {v : σ} (path : String) (h : Reaches p w v) : Reaches p w (p.askSymbols path v).2
  /-- The locations to which a position leads are asked for. -/
  | locations {v : σ} (what : Lookup) (path : String) (position : Position) (h : Reaches p w v) :
      Reaches p w (p.askLocations what path position v).2
  /-- The text of a document is asked for. -/
  | text {v : σ} (path : String) (h : Reaches p w v) : Reaches p w (p.askText path v).2

/-- The provider answers each question the same way, whatever has been asked before. -/
structure Provider.Steady (p : Provider σ) (w : σ) : Prop where
  symbols : ∀ v, p.Reaches w v → ∀ path, (p.askSymbols path v).1 = (p.askSymbols path w).1
  locations : ∀ v, p.Reaches w v → ∀ what path position,
    (p.askLocations what path position v).1 = (p.askLocations what path position w).1
  text : ∀ v, p.Reaches w v → ∀ path, (p.askText path v).1 = (p.askText path w).1

/-- A provider whose state no question changes is steady. -/
theorem Provider.steady_of_unchanged {p : Provider σ}
    (hsymbols : ∀ path w, (p.askSymbols path w).2 = w)
    (hlocations : ∀ what path position w, (p.askLocations what path position w).2 = w)
    (htext : ∀ path w, (p.askText path w).2 = w) (w : σ) : p.Steady w := by
  have heq : ∀ v, p.Reaches w v → v = w := by
    intro v hv
    induction hv with
    | refl => rfl
    | symbols path _ ih => rw [hsymbols, ih]
    | locations what path position _ ih => rw [hlocations, ih]
    | text path _ ih => rw [htext, ih]
  refine ⟨fun v hv path => ?_, fun v hv what path position => ?_, fun v hv path => ?_⟩ <;>
    rw [heq v hv]

/-! ### Prepared answers -/

/-- Prepared answers are steady. -/
theorem AnswerTables.steady (t : AnswerTables) : AnswerTables.provider.Steady t := by
  refine Provider.steady_of_unchanged (fun path w => ?_) (fun _ _ _ _ => rfl) (fun path w => ?_) t
  · simp only [provider, bind, StateT.bind, get, getThe, MonadStateOf.get, StateT.get, pure]
    by_cases hfails : w.fails "symbols_of" path = true
    · rw [if_pos hfails]
      rfl
    · rw [if_neg hfails]
      rfl
  · simp only [provider, bind, StateT.bind, get, getThe, MonadStateOf.get, StateT.get, pure]
    by_cases hfails : w.fails "read_text" path = true
    · rw [if_pos hfails]
      rfl
    · rw [if_neg hfails]
      cases w.files.lookup path <;> rfl

/-- Tables that tell the texts of files and where types are defined. -/
def AnswerTables.ofTypes (files : List (String × String)) (types : List (String × String × Span)) :
    AnswerTables where
  files
  typeDefinitions := types.map fun (name, path, span) => (name, some [some ⟨path, some span⟩])

/-- The tables name no other files than those in which types are defined. -/
theorem AnswerTables.path_of_ofTypes {files : List (String × String)}
   {types : List (String × String × Span)}
    {what : Lookup} {path : String} {position : Position} {found : List (Option RawLocation)}
    (h : (ofTypes files types).locations what path position = .ok (some found))
    {raw : RawLocation} (hraw : some raw ∈ found) : ∃ type ∈ types, raw.path = type.2.1 := by
  unfold locations at h
  split at h
  · cases h
  · split at h
    · rename_i word _
      cases hword : ((ofTypes files types).table what).lookup word with
      | none =>
        rw [hword] at h
        cases h
        cases hraw
      | some answer =>
        rw [hword] at h
        cases h
        obtain ⟨l₁, l₂, hsplit, -⟩ := List.lookup_eq_some_iff.mp hword
        have hmem : (word, some found) ∈ (ofTypes files types).table what := by
          rw [hsplit]
          exact List.mem_append_right _ List.mem_cons_self
        cases what with
        | typeDefinitions =>
          obtain ⟨type, htype, heq⟩ := List.mem_map.mp hmem
          cases heq
          rw [List.mem_singleton] at hraw
          cases hraw
          exact ⟨type, htype, rfl⟩
        | definitions => cases hmem
        | declarations => cases hmem
        | references => cases hmem
    · cases h
      cases hraw

/-- The resolver with prepared answers, for a workspace that is the whole disk. -/
def AnswerTables.resolver : Resolver AnswerTables := ⟨AnswerTables.provider, "/", {}⟩

/-- A file of the tables, opened. -/
def AnswerTables.document (t : AnswerTables) (path : String) : Document :=
  ⟨path, languageIdOfPath path, (t.files.lookup path).getD ""⟩

namespace Resolver

variable {r : Resolver σ} {p : Provider τ}

/-- A state of a resolver that questions may have led to from the state `s`: what is remembered of a
file is what the provider answers at `s`. -/
structure Agrees (r : Resolver σ) (s t : ResolverState σ) : Prop where
  reaches : r.provider.Reaches s.world t.world
  current : ∀ path text, t.texts.lookup path = some text →
    text = (r.provider.textOrNone path s.world).1

/-- The provider is steady, and what is remembered of a file is what it answers. -/
structure Steady (r : Resolver σ) (s : ResolverState σ) : Prop where
  provider : r.provider.Steady s.world
  current : ∀ path text, s.texts.lookup path = some text →
    text = (r.provider.textOrNone path s.world).1

/-- With a steady provider, a resolver that has read nothing yet is steady. -/
theorem Steady.of_new {w : σ} (h : r.provider.Steady w) : r.Steady ⟨w, []⟩ :=
  ⟨h, fun _ _ hnil => by cases hnil⟩

theorem Steady.agrees {s : ResolverState σ} (hs : r.Steady s) : r.Agrees s s := ⟨.refl, hs.current⟩

/-- A computation has the same answer in all states that agree with `s`, and leads to such states. -/
def Fixed {α : Type} (r : Resolver σ) (s : ResolverState σ) (m : ResolverM σ α) : Prop :=
  ∀ t, r.Agrees s t → (m t).1 = (m s).1 ∧ r.Agrees s (m t).2

variable {s t : ResolverState σ}

/-- In a state that agrees with `s`, a file is read as the provider answers at `s`. -/
theorem Agrees.read (hs : r.Steady s) (ht : r.Agrees s t) (path : String) :
    (r.read path t).1 = (r.provider.textOrNone path s.world).1 ∧ r.Agrees s (r.read path t).2 := by
  cases hcase : t.texts.lookup path with
  | some text =>
    rw [read_of_lookup hcase]
    exact ⟨ht.current path text hcase, ht⟩
  | none =>
    have htext : (r.provider.textOrNone path t.world).1 = (r.provider.textOrNone path s.world).1 := by
      rw [Provider.textOrNone_run, Provider.textOrNone_run, hs.provider.text _ ht.reaches]
    rw [read_of_lookup_eq_none hcase]
    refine ⟨htext, ?_, fun other text hother => ?_⟩
    · rw [Provider.textOrNone_run]
      exact .text path ht.reaches
    · simp only [List.lookup_cons] at hother
      split at hother
      · rename_i heq
        cases hother
        rw [beq_iff_eq.mp heq, htext]
      · exact ht.current other text hother

/-- **Computations have fixed answers** where the provider is steady. -/
theorem Alike.fixed (hs : r.Steady s) {α : Type} {b : Lookup → Nat} {m : ResolverM σ α}
    {m' : ResolverM τ α} (h : Alike r p b m m') : r.Fixed s m := by
  induction h with
  | pure a => exact fun t ht => ⟨rfl, ht⟩
  | ask what path position _ =>
    intro t ht
    refine ⟨?_, ?_, ht.current⟩
    · show (r.provider.locations what path position t.world).1 =
        (r.provider.locations what path position s.world).1
      rw [Provider.locations_run, Provider.locations_run, hs.provider.locations _ ht.reaches]
    · show r.provider.Reaches s.world (r.provider.locations what path position t.world).2
      rw [Provider.locations_run]
      exact .locations what path position ht.reaches
  | read path =>
    intro t ht
    obtain ⟨htext, hagrees⟩ := ht.read hs path
    exact ⟨htext.trans (hs.agrees.read hs path).1.symm, hagrees⟩
  | @bind _ _ b c d m m' f f' _ _ _ ihm ihf =>
    intro t ht
    obtain ⟨hval, hagrees⟩ := ihm t ht
    obtain ⟨hval', hagrees'⟩ := ihf (m t).1 (m t).2 hagrees
    have hstart := (ihf (m s).1 (m s).2 (ihm s hs.agrees).2).1
    refine ⟨?_, hagrees'⟩
    calc ((m >>= f) t).1 = (f (m t).1 (m t).2).1 := rfl
      _ = (f (m s).1 s).1 := by rw [hval', hval]
      _ = (f (m s).1 (m s).2).1 := hstart.symm
      _ = ((m >>= f) s).1 := rfl

/-! ### Walks -/

/-- A name where it is used: with the document that is searched for it after the origin. -/
structure Mention where
  other : Option Document
  name : List Char

/-- What looking a name up gives in the state `s`. -/
def look (r : Resolver σ) (origin : Document) (s : ResolverState σ) (a : Mention) : Option Finding :=
  (r.lookUp origin a.other a.name s).1

/-- What a walk comes to on a visit. -/
def Visit.mention (x : Visit) : Mention := ⟨x.other, x.name⟩

/-- **A walk finds what looking up gives at the start** where the provider is steady. -/
theorem Visits.result_eq (hs : r.Steady s) {origin : Document} {depth : Nat} {other : Option Document}
    {names : List (List Char)} {u v : Walk σ} {log : List Visit}
    (h : r.Visits origin depth other names u log v) (hu : r.Agrees s u.toResolverState) :
    (∀ x ∈ log, x.result = r.look origin s x.mention) ∧ r.Agrees s v.toResolverState := by
  have hlook := fun other name => (alike_lookUp r r.provider origin other name).fixed hs
  induction h with
  | done => exact ⟨fun _ hx => absurd hx List.not_mem_nil, hu⟩
  | skip _ _ ih => exact ih hu
  | @miss _ other name _ u _ _ _ _ look _ ih =>
    obtain ⟨hval, hagrees⟩ := hlook other name u.toResolverState hu
    rw [look] at hval hagrees
    obtain ⟨hrest, hv⟩ := ih hagrees
    refine ⟨?_, hv⟩
    rintro x (_ | ⟨_, hx⟩)
    · exact hval
    · exact hrest x hx
  | @hit _ other name _ u _ _ _ _ _ _ _ look _ _ ihb ihm =>
    obtain ⟨hval, hagrees⟩ := hlook other name u.toResolverState hu
    rw [look] at hval hagrees
    obtain ⟨hbelow, hv⟩ := ihb hagrees
    obtain ⟨hrest, hw⟩ := ihm hv
    refine ⟨?_, hw⟩
    rintro x (_ | ⟨_, hx⟩)
    · exact hval
    · rcases List.mem_append.mp hx with hx | hx
      · exact hbelow x hx
      · exact hrest x hx

end Resolver

end Vicinity
