import Vicinity.Proofs.Enclosing.Locating
import Vicinity.Proofs.Resolver.Questions
import Vicinity.References

/-!
# What collecting finds

Collecting goes through words, the locations to which each of them leads, and the symbols declared
there, and it remembers the documents that it has opened. Whatever the provider answers, each unit that
it finds lies in a file that is not left out, and none of them is the unit whose references are
collected.

## What is proved

* `CollectorM.Ensures`: a computation keeps the documents remembered under their own paths, and what it
  gives satisfies a condition; there is a rule for each way to build computations.
* `ensures_collectFrom`: one list of locations adds only such units.
* `collect_refers`, `collect_nodup_refs`: what is collected in the end, each declaration once.
-/

namespace Vicinity

variable {σ : Type}

/-- A document is opened exactly if its text can be read, and has that text. -/
theorem Provider.openDocument_run (p : Provider σ) (path : String) (languageId : Option String)
    (w : σ) :
    match (p.askText path w).1 with
    | .error _ => (p.openDocument path languageId w).1 = none
    | .ok text => ∃ id, (p.openDocument path languageId w).1 = some ⟨path, id, text⟩ := by
  unfold openDocument textOrNone
  simp only [bind, StateT.bind]
  rcases p.askText path w with ⟨_ | text, v⟩
  · rfl
  · exact ⟨_, rfl⟩

theorem Provider.path_of_openDocument {p : Provider σ} {path : String} {languageId : Option String}
    {w : σ} {doc : Document} (h : (p.openDocument path languageId w).1 = some doc) :
    doc.path = path := by
  have hrun := p.openDocument_run path languageId w
  split at hrun
  · rw [hrun] at h
    cases h
  · obtain ⟨id, hopen⟩ := hrun
    rw [hopen] at h
    cases h
    rfl

/-- The documents that are remembered are remembered under their own paths. -/
def CollectorState.Filed (s : CollectorState σ) : Prop :=
  ∀ path doc, s.documents.lookup path = some (some doc) → doc.path = path

/-- A computation keeps documents under their own paths, and `post` holds of what it gives. -/
def CollectorM.Ensures {α : Type} (m : CollectorM σ α) (post : α → Prop) : Prop :=
  ∀ s : CollectorState σ, s.Filed → (m s).2.Filed ∧ post (m s).1

namespace CollectorM.Ensures

variable {α β : Type} {post : α → Prop}

theorem pure {a : α} (h : post a) : Ensures (Pure.pure a : CollectorM σ α) post :=
  fun _ hs => ⟨hs, h⟩

theorem ask {question : StateM σ α} (h : ∀ w, post (question w).1) :
    Ensures (CollectorM.ask question) post := fun s hs => ⟨hs, h s.world⟩

theorem bind {m : CollectorM σ α} {f : α → CollectorM σ β} {next : β → Prop} (hm : Ensures m post)
    (hf : ∀ a, post a → Ensures (f a) next) : Ensures (m >>= f) next := by
  intro s hs
  obtain ⟨hfiled, hpost⟩ := hm s hs
  exact hf _ hpost _ hfiled

theorem mapM {f : β → CollectorM σ α} (hf : ∀ b, Ensures (f b) post) (bs : List β) :
    Ensures (bs.mapM f) fun as => ∀ a ∈ as, post a := by
  induction bs with
  | nil => exact pure fun _ h => absurd h List.not_mem_nil
  | cons b bs ih =>
    rw [List.mapM_cons]
    exact bind (hf b) fun a ha => bind ih fun as has =>
      pure fun x hx => (List.mem_cons.mp hx).elim (· ▸ ha) (has x)

end CollectorM.Ensures

namespace ReferenceCollector

open CollectorM

variable (r : ReferenceCollector σ)

/-- A unit of code that another one may refer to: it has a file that is not left out, and its
declaration is not that of the other one. -/
structure Refers (unit u : CodeUnit) : Prop where
  path_ne : u.path ≠ ""
  not_isIgnored : r.isIgnored u.path = false
  ref_ne : u.ref ≠ unit.ref

theorem ensures_locationsAt (path : String) (position : Position) :
    Ensures (r.locationsAt path position) fun locations => ∀ location ∈ locations,
      location.path ≠ "" := by
  have hanswer : ∀ what, Ensures (.ask (r.provider.locations what path position)) fun found =>
      ∀ location ∈ found, location.path ≠ "" :=
    fun what => .ask fun _ _ h => Provider.path_ne_of_mem_locations h
  refine .bind (.mapM hanswer r.questions) fun found hfound => .pure fun location hlocation => ?_
  obtain ⟨answer, hmem, hlocation⟩ :=
    List.mem_flatten.mp ((firstByKey_sublist id found.flatten).subset hlocation)
  exact hfound answer hmem location hlocation

theorem ensures_document (path : String) :
    Ensures (r.document path) fun doc => ∀ d, doc = some d → d.path = path := by
  intro s hs
  unfold document
  simp only [bind, StateT.bind, get, getThe, MonadStateOf.get, StateT.get, pure]
  cases hlook : s.documents.lookup path with
  | some doc =>
    refine ⟨hs, fun d hd => hs path d ?_⟩
    rw [hlook]
    exact congrArg some hd
  | none =>
    have hopened : ∀ d, (r.provider.openDocument path none s.world).1 = some d → d.path = path :=
      fun d => Provider.path_of_openDocument
    refine ⟨fun other doc hother => ?_, hopened⟩
    have hother : List.lookup other
        ((path, (r.provider.openDocument path none s.world).1) :: s.documents) = some (some doc) :=
      hother
    rw [List.lookup_cons] at hother
    split at hother
    · rename_i heq
      rw [eq_of_beq heq]
      exact hopened doc (Option.some.inj hother)
    · exact hs other doc hother

/-- A symbol declared at a location is a unit of that file. -/
theorem ensures_declaredAt (location : Location) :
    Ensures (r.declaredAt location) fun found => ∀ u, found = some u → u.path = location.path := by
  refine .bind (r.ensures_document location.path) fun doc hdoc => ?_
  cases doc with
  | none => exact .pure fun _ h => by cases h
  | some doc =>
    have hsymbols : Ensures (.ask (r.provider.symbolsOrNone doc.path)) fun _ => True :=
      .ask fun _ => trivial
    refine .bind hsymbols fun symbols _ => .pure fun u hu => ?_
    obtain ⟨name, span, rfl⟩ := exists_unitAt_of_locate hu
    exact hdoc doc rfl

/-- Going through locations finds only units that may be referred to. -/
theorem ensures_collectFrom (unit : CodeUnit) {locations : List Location}
    (hlocations : ∀ location ∈ locations, location.path ≠ "")
    (state : List Location × List CodeUnit) (hstate : ∀ u ∈ state.2, r.Refers unit u) :
    Ensures (r.collectFrom unit locations state) fun state => ∀ u ∈ state.2, r.Refers unit u := by
  induction locations generalizing state with
  | nil => exact .pure hstate
  | cons location more ih =>
    have ih := ih fun other hother => hlocations other (List.mem_cons_of_mem _ hother)
    obtain ⟨seen, found⟩ := state
    unfold collectFrom
    split
    · exact ih _ hstate
    dsimp only
    split
    · exact ih _ hstate
    rename_i hign
    refine .bind (r.ensures_declaredAt location) fun declared hdeclared => ?_
    cases declared with
    | none => exact ih _ hstate
    | some declared =>
      dsimp only
      split
      · exact ih _ hstate
      rename_i hne
      have hpath := hdeclared declared rfl
      have hrefers : r.Refers unit declared :=
        ⟨hpath ▸ hlocations location List.mem_cons_self, by rw [hpath]; simpa using hign, hne⟩
      refine ih _ fun u hu => ?_
      rcases List.mem_cons.mp hu with rfl | hu
      · exact hrefers
      · exact hstate u hu

theorem ensures_collectAt (doc : Document) (unit : CodeUnit) (positions : List Position)
    (state : List Location × List CodeUnit) (hstate : ∀ u ∈ state.2, r.Refers unit u) :
    Ensures (r.collectAt doc unit positions state) fun found => ∀ u ∈ found, r.Refers unit u := by
  induction positions generalizing state with
  | nil =>
    obtain ⟨seen, found⟩ := state
    exact .pure fun u hu => hstate u (List.mem_reverse.mp hu)
  | cons position more ih =>
    exact .bind (r.ensures_locationsAt doc.path position) fun locations hlocations =>
      .bind (r.ensures_collectFrom unit hlocations state hstate) fun state hstate => ih state hstate

theorem filed_nil (w : σ) : (CollectorState.mk w []).Filed := fun _ _ h => by cases h

/-- **What is collected may be referred to**: it lies in files that are not left out, and the unit itself
is not among it. -/
theorem collect_refers (doc : Document) (unit : CodeUnit) (w : σ) :
    ∀ u ∈ (r.collect doc unit ⟨w, []⟩).1, r.Refers unit u := by
  have hensures : Ensures (r.collect doc unit) fun found => ∀ u ∈ found, r.Refers unit u :=
    .bind (r.ensures_collectAt doc unit _ ([], []) fun _ h => absurd h List.not_mem_nil)
      fun found hfound => .pure fun u hu => hfound u ((firstByKey_sublist _ found).subset hu)
  exact (hensures ⟨w, []⟩ (filed_nil w)).2

/-- Each declaration is collected once. -/
theorem collect_nodup_refs (doc : Document) (unit : CodeUnit) (s : CollectorState σ) :
    ((r.collect doc unit s).1.map (·.ref)).Nodup := nodup_firstByKey _ _

end ReferenceCollector

end Vicinity
