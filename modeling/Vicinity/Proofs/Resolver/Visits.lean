import Mathlib.Data.List.Chain
import Mathlib.Data.List.Nodup
import Vicinity.Proofs.Resolver.Questions

/-!
# The visits of a walk

A walk is told by the list of its visits, each with the depth that was left, the name, and what has been
found for it. `Visits` derives the list together with the states before and after the walk, one rule for
each thing that can happen to a name: it is passed over, it is not found, or it is found and the names
that it uses are walked through before the next one. Every walk has such a list
(`exists_visits`, `Visits.run`), and what holds of walks is shown by induction on the derivation.

## What is proved

* `Visits.visited_eq`, `Visits.nodup_visited`: the names visited are those of the list, and no name is
  visited twice.
* `Visits.came_from`: a name is visited because it was asked for or because the declaration found on
  another visit uses it, with one step less left.
* `Visits.uses_visited`: the names that a declaration uses are visited if there was depth left for them.
* `Visits.exists_trail`: so every visit ends a trail of as many visits as depth has been used up.
* `Visits.names_sublist`, `Visits.stands`: what a walk finds has the names of the visits, in order, and
  stands in the texts that have been read.
-/

namespace Vicinity.Resolver

variable {σ : Type}

/-- A visit of a walk to a name. -/
structure Visit where
  /-- The depth that was left. -/
  depth : Nat
  /-- The document searched after the origin. -/
  other : Option Document
  name : List Char
  /-- What has been found. -/
  result : Option Finding

/-- What has been found on several visits. -/
def findings (log : List Visit) : List Finding := log.filterMap (·.result)

theorem mem_findings {log : List Visit} {found : Finding} :
    found ∈ findings log ↔ ∃ x ∈ log, x.result = some found := List.mem_filterMap

/-- The declaration found on one visit uses the name of another, which it is looked for with. -/
def Visit.Leads (x y : Visit) : Prop :=
  ∃ found, x.result = some found ∧ y.name ∈ found.uses ∧ y.other = found.declaring ∧
    y.depth + 1 = x.depth

/-- The visit is to one of the names that a walk was asked for. -/
def Visit.IsFirst (x : Visit) (depth : Nat) (other : Option Document) (names : List (List Char)) :
    Prop :=
  x.name ∈ names ∧ x.other = other ∧ x.depth = depth

/-- `r.Visits origin depth other names s log t`: a walk through the names, one after the other, goes
from the state `s` to the state `t` by the visits of `log`. -/
inductive Visits (r : Resolver σ) (origin : Document) :
    Nat → Option Document → List (List Char) → Walk σ → List Visit → Walk σ → Prop where
  /-- There is no name left. -/
  | done {depth other s} : Visits r origin depth other [] s [] s
  /-- The name is passed over. -/
  | skip {depth other name names s log t} (h : depth = 0 ∨ name ∈ s.visited)
      (more : Visits r origin depth other names s log t) :
      Visits r origin depth other (name :: names) s log t
  /-- The name is visited and nothing is found. -/
  | miss {depth other name names s u log t} (fresh : name ∉ s.visited)
      (look : r.lookUp origin other name s.toResolverState = (none, u))
      (more : Visits r origin (depth + 1) other names ⟨u, s.visited ++ [name]⟩ log t) :
      Visits r origin (depth + 1) other (name :: names) s (⟨depth + 1, other, name, none⟩ :: log) t
  /-- The name is visited and found, and the names that its declaration uses are walked through. -/
  | hit {depth other name names s u found inner v log t} (fresh : name ∉ s.visited)
      (look : r.lookUp origin other name s.toResolverState = (some found, u))
      (below : Visits r origin depth found.declaring found.uses ⟨u, s.visited ++ [name]⟩ inner v)
      (more : Visits r origin (depth + 1) other names v log t) :
      Visits r origin (depth + 1) other (name :: names) s
        (⟨depth + 1, other, name, some found⟩ :: (inner ++ log)) t

/-! ### Every walk has a list of visits -/

theorem mapM_cons_run {ρ α β : Type} (f : α → StateM ρ β) (a : α) (as : List α) (s : ρ) :
    (a :: as).mapM f s = ((f a s).1 :: (as.mapM f (f a s).2).1, (as.mapM f (f a s).2).2) := by
  rw [List.mapM_cons]
  rfl

section Run

variable (r : Resolver σ) (origin : Document)

/-- What a walk does with a name. -/
theorem walk_succ (depth : Nat) (other : Option Document) (name : List Char) (s : Walk σ) :
    r.walk origin (depth + 1) other name s =
      if name ∈ s.visited then ([], s)
      else match r.lookUp origin other name s.toResolverState with
        | (none, u) => ([], ⟨u, s.visited ++ [name]⟩)
        | (some found, u) =>
          let rest := found.uses.mapM (r.walk origin depth found.declaring) ⟨u, s.visited ++ [name]⟩
          (found :: rest.1.flatten, rest.2) := by
  rw [walk]
  by_cases h : name ∈ s.visited
  · have hc : s.visited.contains name = true := by simpa using h
    rw [if_pos h]
    simp only [bind, StateT.bind, get, getThe, MonadStateOf.get, StateT.get, pure, hc, if_true]
    rfl
  · have hc : s.visited.contains name = false := by simpa using h
    rw [if_neg h]
    simp only [bind, StateT.bind, get, getThe, MonadStateOf.get, StateT.get, pure, hc,
      Bool.false_eq_true, ↓reduceIte, modify, modifyGet, MonadStateOf.modifyGet, StateT.modifyGet,
      WalkM.read]
    rcases r.lookUp origin other name s.toResolverState with ⟨_ | found, u⟩
    · rfl
    · simp only [StateT.bind]
      rfl

/-- A name that is passed over changes nothing. -/
theorem walk_of_passed {depth : Nat} {name : List Char} {s : Walk σ} (other : Option Document)
    (h : depth = 0 ∨ name ∈ s.visited) : r.walk origin depth other name s = ([], s) := by
  cases depth with
  | zero => rfl
  | succ depth => rw [walk_succ, if_pos (h.resolve_left (Nat.succ_ne_zero depth))]

/-- Every walk through several names has a list of visits. -/
theorem exists_visits (depth : Nat) : ∀ (other : Option Document) (names : List (List Char))
    (s : Walk σ), ∃ log t, r.Visits origin depth other names s log t := by
  induction depth with
  | zero =>
    intro other names s
    induction names with
    | nil => exact ⟨[], s, .done⟩
    | cons name names ih =>
      obtain ⟨log, t, h⟩ := ih
      exact ⟨log, t, .skip (.inl rfl) h⟩
  | succ depth ihd =>
    intro other names
    induction names with
    | nil => exact fun s => ⟨[], s, .done⟩
    | cons name names ih =>
      intro s
      by_cases hs : name ∈ s.visited
      · obtain ⟨log, t, h⟩ := ih s
        exact ⟨log, t, .skip (.inr hs) h⟩
      · rcases look : r.lookUp origin other name s.toResolverState with ⟨_ | found, u⟩
        · obtain ⟨log, t, h⟩ := ih ⟨u, s.visited ++ [name]⟩
          exact ⟨_, t, .miss hs look h⟩
        · obtain ⟨inner, v, hv⟩ := ihd found.declaring found.uses ⟨u, s.visited ++ [name]⟩
          obtain ⟨log, t, h⟩ := ih v
          exact ⟨_, t, .hit hs look hv h⟩

end Run

namespace Visits

variable {r : Resolver σ} {origin : Document} {depth : Nat} {other : Option Document}
  {names : List (List Char)} {s t : Walk σ} {log : List Visit}

/-- **The list of visits tells the walk**: what it finds and the state in which it ends. -/
theorem run (h : r.Visits origin depth other names s log t) :
    (names.mapM (r.walk origin depth other) s).1.flatten = findings log ∧
      (names.mapM (r.walk origin depth other) s).2 = t := by
  induction h with
  | done => exact ⟨rfl, rfl⟩
  | skip hpass _ ih =>
    rw [mapM_cons_run, walk_of_passed r origin _ hpass]
    exact ih
  | miss fresh look _ ih =>
    rw [mapM_cons_run, walk_succ, if_neg fresh, look]
    exact ih
  | hit fresh look _ _ ihb ihm =>
    rw [mapM_cons_run, walk_succ, if_neg fresh, look]
    simp only [ihb.2, List.flatten_cons, List.cons_append, ihb.1, ihm.1, ihm.2]
    simp [findings]

/-! ### What is visited -/

/-- The names visited afterwards are those visited before and those of the visits. -/
theorem visited_eq (h : r.Visits origin depth other names s log t) :
    t.visited = s.visited ++ log.map (·.name) := by
  induction h with
  | done => simp
  | skip _ _ ih => exact ih
  | miss _ _ _ ih => simp [ih]
  | hit _ _ _ _ ihb ihm => simp [ihm, ihb]

theorem mem_visited (h : r.Visits origin depth other names s log t) {name : List Char}
    (hs : name ∈ s.visited) : name ∈ t.visited := by
  rw [h.visited_eq]
  exact List.mem_append_left _ hs

/-- **No name is visited twice**, and none that was visited before the walk. -/
theorem nodup_visited (h : r.Visits origin depth other names s log t) :
    (log.map (·.name)).Nodup ∧ ∀ x ∈ log, x.name ∉ s.visited := by
  induction h with
  | done => exact ⟨.nil, fun _ hx => absurd hx List.not_mem_nil⟩
  | skip _ _ ih => exact ih
  | @miss _ _ name _ _ _ _ _ fresh _ _ ih =>
    obtain ⟨hnodup, hfresh⟩ := ih
    simp only [List.mem_append, List.mem_singleton, not_or] at hfresh
    refine ⟨?_, ?_⟩
    · rw [List.map_cons, List.nodup_cons, List.mem_map]
      exact ⟨fun ⟨x, hx, hname⟩ => (hfresh x hx).2 hname, hnodup⟩
    · rintro x (_ | ⟨_, hx⟩)
      · exact fresh
      · exact (hfresh x hx).1
  | @hit _ _ name _ _ _ _ inner v log _ fresh _ below _ ihb ihm =>
    obtain ⟨hnodup, hfresh⟩ := ihm
    obtain ⟨hnodup', hfresh'⟩ := ihb
    rw [below.visited_eq] at hfresh
    simp only [List.mem_append, List.mem_singleton, List.mem_map, not_or, not_exists,
      not_and] at hfresh hfresh'
    refine ⟨?_, ?_⟩
    · simp only [List.map_cons, List.map_append, List.nodup_cons, List.mem_append, List.mem_map,
        not_or, not_exists, not_and]
      refine ⟨⟨fun x hx => (hfresh' x hx).2, fun x hx => (hfresh x hx).1.2⟩, ?_⟩
      refine List.nodup_append.mpr ⟨hnodup', hnodup, ?_⟩
      intro a ha b hb hab
      obtain ⟨x, hx, rfl⟩ := List.mem_map.mp ha
      obtain ⟨y, hy, rfl⟩ := List.mem_map.mp hb
      exact (hfresh y hy).2 x hx hab
    · rintro x (_ | ⟨_, hx⟩)
      · exact fresh
      · rcases List.mem_append.mp hx with hx | hx
        · exact (hfresh' x hx).1
        · exact (hfresh x hx).1.1

/-- Two visits to one name are one visit. -/
theorem eq_of_name_eq (h : r.Visits origin depth other names s log t) {x y : Visit} (hx : x ∈ log)
    (hy : y ∈ log) (hname : x.name = y.name) : x = y :=
  List.inj_on_of_nodup_map h.nodup_visited.1 hx hy hname

/-- A name that is visited afterwards and was not before has a visit. -/
theorem exists_of_mem_visited (h : r.Visits origin depth other names s log t) {name : List Char}
    (ht : name ∈ t.visited) (hs : name ∉ s.visited) : ∃ x ∈ log, x.name = name := by
  rw [h.visited_eq, List.mem_append, List.mem_map] at ht
  exact ht.resolve_left hs

theorem depth_le (h : r.Visits origin depth other names s log t) {x : Visit} (hx : x ∈ log) :
    0 < x.depth ∧ x.depth ≤ depth := by
  induction h with
  | done => cases hx
  | skip _ _ ih => exact ih hx
  | miss _ _ _ ih =>
    rcases hx with _ | ⟨_, hx⟩
    · exact ⟨Nat.succ_pos _, Nat.le_refl _⟩
    · exact ih hx
  | hit _ _ _ _ ihb ihm =>
    rcases hx with _ | ⟨_, hx⟩
    · exact ⟨Nat.succ_pos _, Nat.le_refl _⟩
    · rcases List.mem_append.mp hx with hx | hx
      · exact ⟨(ihb hx).1, Nat.le_succ_of_le (ihb hx).2⟩
      · exact ihm hx

/-- With depth left, every name that is asked for is visited. -/
theorem names_visited (h : r.Visits origin depth other names s log t) (hd : 0 < depth)
    {name : List Char} (hname : name ∈ names) : name ∈ t.visited := by
  induction h with
  | done => cases hname
  | skip hpass more ih =>
    rcases hname with _ | ⟨_, hname⟩
    · exact more.mem_visited (hpass.resolve_left (Nat.ne_of_gt hd))
    · exact ih hd hname
  | miss _ _ more ih =>
    rcases hname with _ | ⟨_, hname⟩
    · exact more.mem_visited (by simp)
    · exact ih hd hname
  | hit _ _ below more _ ihm =>
    rcases hname with _ | ⟨_, hname⟩
    · exact more.mem_visited (below.mem_visited (by simp))
    · exact ihm hd hname

/-- **The names that a declaration uses are visited** if there was depth left for them. -/
theorem uses_visited (h : r.Visits origin depth other names s log t) {x : Visit} (hx : x ∈ log)
    {found : Finding} (hfound : x.result = some found) (hd : 1 < x.depth) {name : List Char}
    (hname : name ∈ found.uses) : name ∈ t.visited := by
  induction h with
  | done => cases hx
  | skip _ _ ih => exact ih hx
  | miss _ _ _ ih =>
    rcases hx with _ | ⟨_, hx⟩
    · cases hfound
    · exact ih hx
  | hit _ _ below more ihb ihm =>
    rcases hx with _ | ⟨_, hx⟩
    · cases hfound
      exact more.mem_visited (below.names_visited (Nat.lt_of_succ_lt_succ hd) hname)
    · rcases List.mem_append.mp hx with hx | hx
      · exact more.mem_visited (ihb hx)
      · exact ihm hx

/-! ### How a visit comes about -/

/-- **A name is visited** because it was asked for, or because the declaration found on another visit
uses it. -/
theorem came_from (h : r.Visits origin depth other names s log t) {x : Visit} (hx : x ∈ log) :
    x.IsFirst depth other names ∨ ∃ y ∈ log, y.Leads x := by
  induction h with
  | done => cases hx
  | skip _ _ ih =>
    rcases ih hx with ⟨hname, hx⟩ | hx
    · exact .inl ⟨List.mem_cons_of_mem _ hname, hx⟩
    · exact .inr hx
  | miss _ _ _ ih =>
    rcases hx with _ | ⟨_, hx⟩
    · exact .inl ⟨List.mem_cons_self, rfl, rfl⟩
    · rcases ih hx with ⟨hname, hx⟩ | ⟨y, hy, hyx⟩
      · exact .inl ⟨List.mem_cons_of_mem _ hname, hx⟩
      · exact .inr ⟨y, List.mem_cons_of_mem _ hy, hyx⟩
  | hit _ _ _ _ ihb ihm =>
    rcases hx with _ | ⟨_, hx⟩
    · exact .inl ⟨List.mem_cons_self, rfl, rfl⟩
    · rcases List.mem_append.mp hx with hx | hx
      · rcases ihb hx with ⟨hname, hother, hdepth⟩ | ⟨y, hy, hyx⟩
        · exact .inr ⟨_, List.mem_cons_self, _, rfl, hname, hother, congrArg Nat.succ hdepth⟩
        · exact .inr ⟨y, List.mem_cons_of_mem _ (List.mem_append_left _ hy), hyx⟩
      · rcases ihm hx with ⟨hname, hx⟩ | ⟨y, hy, hyx⟩
        · exact .inl ⟨List.mem_cons_of_mem _ hname, hx⟩
        · exact .inr ⟨y, List.mem_cons_of_mem _ (List.mem_append_right _ hy), hyx⟩

/-- Visits, each of which leads to the next, from a name that was asked for to the visit `x`. -/
structure Trail (depth : Nat) (other : Option Document) (names : List (List Char)) (log : List Visit)
    (x : Visit) (trail : List Visit) : Prop where
  mem : ∀ y ∈ trail, y ∈ log
  chain : trail.IsChain Visit.Leads
  first : ∃ y, trail.head? = some y ∧ y.IsFirst depth other names
  last : trail.getLast? = some x
  length : trail.length + x.depth = depth + 1

/-- **Every visit ends a trail** of as many visits as depth has been used up on it. -/
theorem exists_trail (h : r.Visits origin depth other names s log t) {x : Visit} (hx : x ∈ log) :
    ∃ trail, Trail depth other names log x trail := by
  -- by induction on the depth used up: where none has been, the name was asked for
  obtain ⟨used, hused⟩ : ∃ used, x.depth + used = depth := ⟨_, Nat.add_sub_cancel' (h.depth_le hx).2⟩
  induction used generalizing x with
  | zero =>
    rcases h.came_from hx with hfirst | ⟨y, hy, _, -, -, -, hyx⟩
    · refine ⟨[x], by simpa using hx, .singleton x, ⟨x, rfl, hfirst⟩, rfl, ?_⟩
      simp only [List.length_singleton]
      omega
    · have := (h.depth_le hy).2
      omega
  | succ used ih =>
    rcases h.came_from hx with hfirst | ⟨y, hy, hyx⟩
    · have := hfirst.2.2
      omega
    · obtain ⟨_, -, -, -, hdepth⟩ := id hyx
      obtain ⟨trail, htrail⟩ := ih hy (by omega)
      obtain ⟨first, hhead, hfirst⟩ := htrail.first
      have hlen := htrail.length
      refine ⟨trail ++ [x], ?_, ?_, ⟨first, ?_, hfirst⟩, by simp, ?_⟩
      · intro z hz
        rcases List.mem_append.mp hz with hz | hz
        · exact htrail.mem z hz
        · exact (List.mem_singleton.mp hz) ▸ hx
      · refine List.isChain_append.mpr ⟨htrail.chain, .singleton x, fun z hz w hw => ?_⟩
        rw [htrail.last] at hz
        cases hz
        cases hw
        exact hyx
      · rw [List.head?_append, hhead]
        rfl
      · rw [List.length_append, List.length_singleton]
        omega

/-- The names along a trail differ. -/
theorem Trail.nodup (h : r.Visits origin depth other names s log t) {x : Visit} {trail : List Visit}
    (htrail : Trail depth other names log x trail) : (trail.map (·.name)).Nodup := by
  have hlt : trail.Pairwise fun y z => z.depth < y.depth := by
    refine List.isChain_iff_pairwise.mp (htrail.chain.imp fun y z hyz => ?_)
    obtain ⟨_, -, -, -, hdepth⟩ := hyz
    omega
  refine List.pairwise_map.mpr (hlt.imp_of_mem fun hy hz hyz hname => ?_)
  rw [h.eq_of_name_eq (htrail.mem _ hy) (htrail.mem _ hz) hname] at hyz
  exact Nat.lt_irrefl _ hyz

/-! ### What is found -/

/-- What has been read before a walk is still the same afterwards. -/
theorem keeps (h : r.Visits origin depth other names s log t) :
    s.toResolverState.Keeps t.toResolverState := by
  have hlook := fun other name => (alike_lookUp r r.provider origin other name).keeps
  induction h with
  | done => exact .refl _
  | skip _ _ ih => exact ih
  | @miss _ other name _ s _ _ _ _ look _ ih =>
    have := hlook other name s.toResolverState
    rw [look] at this
    exact this.trans ih
  | @hit _ other name _ s _ _ _ _ _ _ _ look _ _ ihb ihm =>
    have := hlook other name s.toResolverState
    rw [look] at this
    exact (this.trans ihb).trans ihm

/-- What a visit finds is what looking the name up gave, and what was read for it is kept. -/
theorem exists_lookUp (h : r.Visits origin depth other names s log t) {x : Visit} (hx : x ∈ log) :
    ∃ u v, r.lookUp origin x.other x.name u = (x.result, v) ∧ v.Keeps t.toResolverState := by
  induction h with
  | done => cases hx
  | skip _ _ ih => exact ih hx
  | miss _ look more ih =>
    rcases hx with _ | ⟨_, hx⟩
    · exact ⟨_, _, look, more.keeps⟩
    · exact ih hx
  | hit _ look below more ihb ihm =>
    rcases hx with _ | ⟨_, hx⟩
    · exact ⟨_, _, look, below.keeps.trans more.keeps⟩
    · rcases List.mem_append.mp hx with hx | hx
      · obtain ⟨u, v, hlook, hkeeps⟩ := ihb hx
        exact ⟨u, v, hlook, hkeeps.trans more.keeps⟩
      · exact ihm hx

theorem name_of_result (h : r.Visits origin depth other names s log t) {x : Visit} (hx : x ∈ log)
    {found : Finding} (hfound : x.result = some found) : found.name = x.name := by
  obtain ⟨u, v, hlook, -⟩ := h.exists_lookUp hx
  rw [hfound] at hlook
  exact (lookUp_eq_some r (congrArg Prod.fst hlook)).1

/-- **What is found stands** in the texts as they have been read. -/
theorem stands (h : r.Visits origin depth other names s log t) {x : Visit} (hx : x ∈ log)
    {found : Finding} (hfound : x.result = some found) : r.Stands t.toResolverState found := by
  obtain ⟨u, v, hlook, hkeeps⟩ := h.exists_lookUp hx
  rw [hfound] at hlook
  have hstands := (lookUp_eq_some r (congrArg Prod.fst hlook)).2.2.2
  rw [hlook] at hstands
  exact hstands.keeps hkeeps

/-- What is found has been given in answer to a question. -/
theorem answers (h : r.Visits origin depth other names s log t) {x : Visit} (hx : x ∈ log)
    {found : Finding} (hfound : x.result = some found) : r.provider.Answers found.location := by
  obtain ⟨u, v, hlook, -⟩ := h.exists_lookUp hx
  rw [hfound] at hlook
  exact (answers_of_definingLocation r (lookUp_eq_some r (congrArg Prod.fst hlook)).2.1).1

/-- What is found has the names of the visits, in their order. -/
theorem names_sublist (h : r.Visits origin depth other names s log t) :
    ((findings log).map (·.name)).Sublist (log.map (·.name)) := by
  have hname : ∀ x ∈ log, ∀ found, x.result = some found → found.name = x.name :=
    fun x hx found hfound => h.name_of_result hx hfound
  clear h
  induction log with
  | nil => exact .slnil
  | cons x log ih =>
    have ih := ih fun y hy => hname y (List.mem_cons_of_mem _ hy)
    unfold findings
    cases hx : x.result with
    | none =>
      rw [List.filterMap_cons_none hx, List.map_cons]
      exact ih.cons _
    | some found =>
      rw [List.filterMap_cons_some hx, List.map_cons, List.map_cons,
        hname x List.mem_cons_self found hx]
      exact ih.cons_cons _

/-! ### Walking from one name -/

/-- The list of visits of a walk from one name. -/
theorem walk_eq {name : List Char} (h : r.Visits origin depth other [name] s log t) :
    r.walk origin depth other name s = (findings log, t) := by
  obtain ⟨hfound, hstate⟩ := h.run
  rw [mapM_cons_run] at hfound hstate
  exact Prod.ext ((List.append_nil _).symm.trans hfound) hstate

end Visits

end Vicinity.Resolver
