import Mathlib.Data.Set.Card
import Mathlib.Logic.Relation
import Vicinity.Proofs.Resolver.Steady

/-!
# Reachable names

The names of types form a graph: one name leads to the names that the declaration found for it uses.
Where the provider is steady and sends no name to another document of the workspace, the graph does not
depend on the walk. This module shows that a walk with depth enough returns exactly what is found for
the names that can be reached (`resolve_exact`), although it marks a name before it knows whether the
declarations behind it can be walked through: a name with no depth left below it ends a chain of as many
names as there was depth, and one more name would be more than can be reached.
-/

namespace Vicinity.Resolver

open Relation

variable {σ : Type} {r : Resolver σ} {s t : ResolverState σ}

/-- Every location that is not left out lies in the document. -/
def InOrigin (r : Resolver σ) (origin : Document) (s : ResolverState σ) : Prop :=
  ∀ what path position, ∀ location ∈ (r.provider.locations what path position s.world).1,
    r.isIgnored location.path = false → location.path = origin.path

/-- The declaration found for one name uses the other. -/
def Needs (r : Resolver σ) (origin : Document) (s : ResolverState σ) (a b : List Char) : Prop :=
  ∃ found, (r.lookUp origin none a s).1 = some found ∧ b ∈ found.uses

/-! ### Where names are found -/

theorem mem_answer_of_firstAnswer (hs : r.Steady s) {path : String} {position : Position}
    {kinds : List Lookup} {location : Location} (ht : r.Agrees s t)
    (h : (r.firstAnswer path position kinds t).1 = some location) :
    ∃ what, location ∈ (r.provider.locations what path position s.world).1 := by
  induction kinds generalizing t with
  | nil => cases h
  | cons kind kinds ih =>
    have hask := (Alike.ask (r := r) (p := r.provider) (b := fun _ => 1) kind path position
      (Nat.le_refl 1)).fixed hs t ht
    rw [firstAnswer_cons] at h
    split at h
    · rename_i hfind
      cases h
      exact ⟨kind, hask.1 ▸ List.mem_of_find?_eq_some hfind⟩
    · exact ih hask.2 h

theorem mem_answer_of_definingLocation (hs : r.Steady s) {name : List Char} {docs : List Document}
    {location : Location} (ht : r.Agrees s t)
    (h : (r.definingLocation name docs t).1 = some location) :
    ∃ what path position, location ∈ (r.provider.locations what path position s.world).1 := by
  induction docs generalizing t with
  | nil => cases h
  | cons doc docs ih =>
    rw [definingLocation_cons] at h
    split at h
    · exact ih ht h
    · rename_i position _
      have hfirst := ((alike_firstAnswer r r.provider doc.path position
        [.typeDefinitions, .definitions]).fixed hs t ht).2
      split at h
      · rename_i heq
        cases h
        obtain ⟨what, hmem⟩ := mem_answer_of_firstAnswer hs ht (congrArg Prod.fst heq)
        exact ⟨what, doc.path, position, hmem⟩
      · rename_i heq
        rw [heq] at hfirst
        exact ih hfirst h

/-- Where all locations lie in the origin, no other document is searched for the names of a
declaration. -/
theorem declaring_eq_none (hs : r.Steady s) {origin : Document} (horigin : r.InOrigin origin s)
    {a : Mention} {found : Finding} (h : r.look origin s a = some found) : found.declaring = none := by
  obtain ⟨-, hloc, hdecl, hstands, -⟩ := lookUp_eq_some r h
  obtain ⟨what, path, position, hmem⟩ := mem_answer_of_definingLocation hs hs.agrees hloc
  exact hdecl (horigin what path position _ hmem hstands)

variable {origin : Document} {depth : Nat} {names : List (List Char)} {u v : Walk σ} {log : List Visit}

/-- So every visit is to a name of the origin. -/
theorem Visits.other_eq_none (hs : r.Steady s) (horigin : r.InOrigin origin s)
    (h : r.Visits origin depth none names u log v) (hu : r.Agrees s u.toResolverState) {x : Visit}
    (hx : x ∈ log) : x.other = none := by
  rcases h.came_from hx with ⟨-, hother, -⟩ | ⟨y, hy, found, hfound, -, hother, -⟩
  · exact hother
  · rw [hother]
    exact declaring_eq_none hs horigin (((h.result_eq hs hu).1 y hy).symm.trans hfound)

/-- What a visit finds is what looking its name up gives. -/
theorem Visits.result_eq_lookUp (hs : r.Steady s) (horigin : r.InOrigin origin s)
    (h : r.Visits origin depth none names u log v) (hu : r.Agrees s u.toResolverState) {x : Visit}
    (hx : x ∈ log) : x.result = (r.lookUp origin none x.name s).1 := by
  have hresult := (h.result_eq hs hu).1 x hx
  rwa [look, Visit.mention, h.other_eq_none hs horigin hu hx] at hresult

/-- **Every name that is visited can be reached** from a name that was asked for. -/
theorem Visits.reaches (hs : r.Steady s) (horigin : r.InOrigin origin s)
    (h : r.Visits origin depth none names u log v) (hu : r.Agrees s u.toResolverState) {x : Visit}
    (hx : x ∈ log) : ∃ name ∈ names, ReflTransGen (r.Needs origin s) name x.name := by
  obtain ⟨trail, htrail⟩ := h.exists_trail hx
  have hneeds : (trail.map (·.name)).IsChain (r.Needs origin s) := by
    refine (List.isChain_map _).mpr (htrail.chain.imp_of_mem_imp fun y z hy _ hyz => ?_)
    obtain ⟨found, hfound, huses, -, -⟩ := hyz
    have hresult := h.result_eq_lookUp hs horigin hu (htrail.mem y hy)
    exact ⟨found, hresult.symm.trans hfound, huses⟩
  obtain ⟨first, hhead, hfirst, -, -⟩ := htrail.first
  refine ⟨first.name, hfirst, ?_⟩
  obtain ⟨rest, rfl⟩ : ∃ rest, trail = first :: rest := by
    cases trail with
    | nil => cases hhead
    | cons y rest => cases hhead; exact ⟨rest, rfl⟩
  refine List.relationReflTransGen_of_exists_isChain_cons _ hneeds ?_
  have hlast : ((first :: rest).map (·.name)).getLast? = some x.name := by
    rw [List.getLast?_map, htrail.last]
    rfl
  exact (List.getLast_eq_iff_getLast?_eq_some _).mpr hlast

/-! ### Depth enough -/

/-- The names that can be reached from a name, itself included. -/
def Reachable (r : Resolver σ) (origin : Document) (s : ResolverState σ) (name : List Char) :
    Set (List Char) :=
  {m | ReflTransGen (r.Needs origin s) name m}

theorem length_le_of_subset {S : Set (List Char)} {k : ℕ} (hS : S.encard ≤ k) {l : List (List Char)}
    (hl : l.Nodup) (hsub : ∀ m ∈ l, m ∈ S) : l.length ≤ k := by
  have hfinset : (l.toFinset : Set (List Char)) ⊆ S := fun m hm => hsub m (by simpa using hm)
  have hcard : (l.toFinset.card : ℕ∞) ≤ k := by
    rw [← Set.encard_coe_eq_coe_finsetCard]
    exact (Set.encard_le_encard hfinset).trans hS
  rw [List.toFinset_card_of_nodup hl] at hcard
  exact_mod_cast hcard

/-- **With depth enough every reachable name is visited.** -/
theorem Visits.reachable_visited (hs : r.Steady s) (horigin : r.InOrigin origin s) {name : List Char}
    (h : r.Visits origin depth none [name] u log v) (hu : r.Agrees s u.toResolverState)
    (hnew : u.visited = []) (hdepth : (r.Reachable origin s name).encard ≤ depth) {m : List Char}
    (hm : m ∈ r.Reachable origin s name) : m ∈ v.visited := by
  have hreach : ∀ x ∈ log, x.name ∈ r.Reachable origin s name := by
    intro x hx
    obtain ⟨first, hfirst, hto⟩ := h.reaches hs horigin hu hx
    rwa [List.mem_singleton.mp hfirst] at hto
  have hpos : 0 < depth :=
    length_le_of_subset hdepth (List.nodup_singleton name) fun m hm => by
      rw [List.mem_singleton.mp hm]
      exact ReflTransGen.refl
  induction hm with
  | refl => exact h.names_visited hpos (List.mem_singleton_self name)
  | @tail a b hab hneeds ih =>
    obtain ⟨found, hfound, huses⟩ := hneeds
    obtain ⟨x, hx, rfl⟩ := h.exists_of_mem_visited ih (by simp [hnew])
    have hresult : x.result = some found := (h.result_eq_lookUp hs horigin hu hx).trans hfound
    by_cases hd : 1 < x.depth
    · exact h.uses_visited hx hresult hd huses
    · -- no depth is left: with `b`, the names on the way here would be too many
      by_contra hb
      obtain ⟨trail, htrail⟩ := h.exists_trail hx
      have hlen := htrail.length
      have hx0 := (h.depth_le hx).1
      have hnodup : (trail.map (·.name) ++ [b]).Nodup := by
        refine List.nodup_append.mpr ⟨htrail.nodup h, List.nodup_singleton b, ?_⟩
        intro n hn c hc hnc
        obtain ⟨y, hy, rfl⟩ := List.mem_map.mp hn
        rw [List.mem_singleton.mp hc] at hnc
        rw [← hnc, h.visited_eq] at hb
        exact hb (List.mem_append_right _ (List.mem_map_of_mem (htrail.mem y hy)))
      have htoo := length_le_of_subset hdepth hnodup fun n hn => by
        rcases List.mem_append.mp hn with hn | hn
        · obtain ⟨y, hy, rfl⟩ := List.mem_map.mp hn
          exact hreach y (htrail.mem y hy)
        · rw [List.mem_singleton.mp hn]
          exact hab.tail ⟨found, hfound, huses⟩
      rw [List.length_append, List.length_map, List.length_singleton] at htoo
      omega

/-- **With depth enough, resolving a name returns exactly what can be reached**: one entry for each name
that can be reached and is itself found, and no other entry. -/
theorem resolve_exact (hs : r.Steady s) {doc : Document} (hdoc : r.InOrigin doc s) {name : List Char}
    {budget : Int} (hbudget : (r.Reachable doc s name).encard ≤ budget.toNat) :
    (r.resolvedNames doc name budget s).Nodup ∧
      (∀ m : String, m ∈ r.resolvedNames doc name budget s ↔
        m.toList ∈ r.Reachable doc s name ∧ (r.lookUp doc none m.toList s).1.isSome) ∧
      ∀ type ∈ (r.resolve doc name budget [] s).1.1, ∃ found,
        (r.lookUp doc none type.name.toList s).1 = some found ∧ type = r.entry found := by
  obtain ⟨log, t, h⟩ := r.exists_visits doc budget.toNat none [name] ⟨s, []⟩
  have hrun := resolve_eq r doc name budget [] s h
  have hlookUp : ∀ x ∈ log, x.result = (r.lookUp doc none x.name s).1 :=
    fun x hx => h.result_eq_lookUp hs hdoc hs.agrees hx
  refine ⟨?_, fun m => ?_, fun type htype => ?_⟩
  · unfold resolvedNames
    rw [hrun]
    exact h.nodup_entries
  · rw [mem_resolvedNames h]
    constructor
    · rintro ⟨x, hx, hname, hsome⟩
      obtain ⟨first, hfirst, hto⟩ := h.reaches hs hdoc hs.agrees hx
      rw [List.mem_singleton.mp hfirst, hname] at hto
      rw [hlookUp x hx, hname] at hsome
      exact ⟨hto, hsome⟩
    · rintro ⟨hm, hsome⟩
      have hvisited := h.reachable_visited hs hdoc hs.agrees rfl hbudget hm
      obtain ⟨x, hx, hname⟩ := h.exists_of_mem_visited hvisited List.not_mem_nil
      refine ⟨x, hx, hname, ?_⟩
      rwa [hlookUp x hx, hname]
  · rw [hrun] at htype
    obtain ⟨found, hfound, rfl⟩ := List.mem_map.mp htype
    obtain ⟨x, hx, hresult⟩ := mem_findings.mp hfound
    have hname : (r.entry found).name.toList = x.name :=
      String.toList_ofList.trans (h.name_of_result hx hresult)
    refine ⟨found, ?_, rfl⟩
    rw [hname, ← hlookUp x hx, hresult]

/-! ### Types that use one another -/

/-- A set of names that holds all that its names lead to holds all that can be reached from them. -/
theorem reachable_subset {S : Set (List Char)} {name : List Char} (hname : name ∈ S)
    (hclosed : ∀ a ∈ S, ∀ b, r.Needs origin s a b → b ∈ S) : r.Reachable origin s name ⊆ S := by
  intro m hm
  induction hm with
  | refl => exact hname
  | tail _ hneeds ih => exact hclosed _ ih _ hneeds

theorem path_of_location? {answer : Option RawLocation} {location : Location}
    (h : Provider.location? answer = some location) :
    ∃ raw, answer = some raw ∧ location.path = raw.path := by
  unfold Provider.location? at h
  split at h
  · rename_i path span
    split at h
    · cases h
    · cases h
      exact ⟨_, rfl, rfl⟩
  · cases h

/-- Tables that define all types in one file send no name to another one. -/
theorem inOrigin_ofTypes {files : List (String × String)} {types : List (String × String × Span)}
    {path : String} (h : ∀ type ∈ types, type.2.1 = path) :
    AnswerTables.resolver.InOrigin ((AnswerTables.ofTypes files types).document path)
      ⟨.ofTypes files types, []⟩ := by
  intro what path' position location hmem _
  rw [Provider.locations_run] at hmem
  simp only at hmem
  split at hmem
  · rename_i found hfound
    obtain ⟨answer, hanswer, hlocation⟩ := List.mem_filterMap.mp hmem
    obtain ⟨raw, rfl, hpath⟩ := path_of_location? hlocation
    obtain ⟨type, htype, hraw⟩ := AnswerTables.path_of_ofTypes hfound hanswer
    rw [hpath, hraw, h type htype]
    rfl
  · cases hmem

/-- Types in one file that use one another. -/
def treeAndLeaf : AnswerTables :=
  .ofTypes [("/a", "type Tree Leaf\ntype Leaf Tree")]
    [("Tree", "/a", .of 0 5 0 9), ("Leaf", "/a", .of 1 5 1 9)]

theorem reachable_treeAndLeaf :
    AnswerTables.resolver.Reachable (treeAndLeaf.document "/a") ⟨treeAndLeaf, []⟩ "Tree".toList ⊆
      {"Tree".toList, "Leaf".toList} := by
  have huses : ∀ a ∈ ["Tree".toList, "Leaf".toList],
      ∀ found ∈ (AnswerTables.resolver.lookUp (treeAndLeaf.document "/a") none a ⟨treeAndLeaf, []⟩).1,
        ∀ b ∈ found.uses, b ∈ ["Tree".toList, "Leaf".toList] := by
    decide +kernel
  refine reachable_subset (Set.mem_insert _ _) fun a ha b hneeds => ?_
  obtain ⟨found, hfound, hb⟩ := hneeds
  exact List.mem_pair.mp (huses a (List.mem_pair.mpr ha) found hfound b hb)

/-- Two types that use one another are both returned, with a depth of two. -/
theorem resolve_treeAndLeaf :
    let doc := treeAndLeaf.document "/a"
    let reachable := AnswerTables.resolver.Reachable doc ⟨treeAndLeaf, []⟩ "Tree".toList
    let names := AnswerTables.resolver.resolvedNames doc "Tree".toList 2 ⟨treeAndLeaf, []⟩
    AnswerTables.resolver.Steady ⟨treeAndLeaf, []⟩ ∧
      AnswerTables.resolver.InOrigin doc ⟨treeAndLeaf, []⟩ ∧ reachable.encard ≤ (2 : Int).toNat ∧
      names.Nodup ∧
      (∀ m : String, m ∈ names ↔ m.toList ∈ reachable ∧
        (AnswerTables.resolver.lookUp doc none m.toList ⟨treeAndLeaf, []⟩).1.isSome) ∧
      ∀ type ∈ (AnswerTables.resolver.resolve doc "Tree".toList 2 [] ⟨treeAndLeaf, []⟩).1.1, ∃ found,
        (AnswerTables.resolver.lookUp doc none type.name.toList ⟨treeAndLeaf, []⟩).1 = some found ∧
          type = AnswerTables.resolver.entry found := by
  have hsteady : AnswerTables.resolver.Steady ⟨treeAndLeaf, []⟩ := .of_new treeAndLeaf.steady
  have hdoc : AnswerTables.resolver.InOrigin (treeAndLeaf.document "/a") ⟨treeAndLeaf, []⟩ :=
    inOrigin_ofTypes (by decide)
  have hbudget : (AnswerTables.resolver.Reachable (treeAndLeaf.document "/a") ⟨treeAndLeaf, []⟩
      "Tree".toList).encard ≤ (2 : Int).toNat := by
    refine (Set.encard_le_encard reachable_treeAndLeaf).trans ?_
    rw [Set.encard_pair (by decide)]
    rfl
  exact ⟨hsteady, hdoc, hbudget, resolve_exact hsteady hdoc hbudget⟩

end Vicinity.Resolver
