import Mathlib.Data.Finset.Card
import Vicinity.Proofs.Resolver.Visits

/-!
# What resolving a name may do

Whatever the provider answers, and whichever of its answers fail, resolving a name stays within bounds:
it returns each name at most once, it visits no name that does not lie on a chain of declarations from
the name it was asked for, and each visit costs a fixed number of questions. The state of the provider is
arbitrary here, so an answer may depend on all that was asked before.
-/

namespace Vicinity.Resolver

variable {σ : Type}

/-- The walk with a list of the questions put so far. -/
def Walk.recorded (s : Walk σ) (calls : List ProviderCall) : Walk (σ × List ProviderCall) :=
  ⟨s.toResolverState.recorded calls, s.visited⟩

/-- The questions that resolving a name puts to the provider. -/
def resolveCalls (r : Resolver σ) (doc : Document) (name : List Char) (depth : Int)
    (visited : List (List Char)) (s : ResolverState σ) : List ProviderCall :=
  ((r.via r.provider.recording).resolve doc name depth visited (s.recorded [])).2.world.2

/-- The names of the types that resolving a name returns. -/
def resolvedNames (r : Resolver σ) (doc : Document) (name : List Char) (depth : Int)
    (s : ResolverState σ) : List String :=
  (r.resolve doc name depth [] s).1.1.map (·.name)

/-- The declaration of the one name, which is among what has been found, uses the other. -/
def Uses (found : List Finding) (a b : List Char) : Prop := ∃ f ∈ found, f.name = a ∧ b ∈ f.uses

variable {r : Resolver σ} {origin : Document} {depth : Nat} {other : Option Document}
  {names : List (List Char)} {s t : Walk σ} {log : List Visit}

/-- **A walk puts a bounded number of questions for each visit**, and a provider that keeps a list of
them answers as before. -/
theorem Visits.recording (h : r.Visits origin depth other names s log t) :
    ∀ calls, ∃ more,
      (r.via r.provider.recording).Visits origin depth other names (s.recorded calls) log
        (t.recorded (calls ++ more)) ∧
      ∀ what, more.countP (ProviderCall.asksFor what) ≤
        log.length * (2 * [Lookup.typeDefinitions, .definitions].count what) := by
  induction h with
  | done => exact fun calls => ⟨[], by rw [List.append_nil]; exact .done, fun _ => Nat.zero_le _⟩
  | skip hpass _ ih =>
    intro calls
    obtain ⟨more, hmore, hcount⟩ := ih calls
    exact ⟨more, .skip hpass hmore, hcount⟩
  | @miss _ other name _ s u _ _ fresh look _ ih =>
    intro calls
    obtain ⟨asked, hlook, hasked⟩ :=
      (alike_lookUp r r.provider.recording origin other name).recording s.toResolverState calls
    rw [look] at hlook
    obtain ⟨more, hmore, hcount⟩ := ih (calls ++ asked)
    rw [List.append_assoc] at hmore
    refine ⟨asked ++ more, .miss fresh hlook hmore, fun what => ?_⟩
    rw [List.countP_append, List.length_cons, Nat.succ_mul, Nat.add_comm]
    exact Nat.add_le_add (hcount what) (hasked what)
  | @hit _ other name _ s u found inner v log t fresh look _ _ ihb ihm =>
    intro calls
    obtain ⟨asked, hlook, hasked⟩ :=
      (alike_lookUp r r.provider.recording origin other name).recording s.toResolverState calls
    rw [look] at hlook
    obtain ⟨below, hbelow, hcount⟩ := ihb (calls ++ asked)
    obtain ⟨more, hmore, hcount'⟩ := ihm (calls ++ asked ++ below)
    have hassoc : calls ++ asked ++ below ++ more = calls ++ (asked ++ (below ++ more)) := by
      simp only [List.append_assoc]
    rw [hassoc] at hmore
    refine ⟨asked ++ (below ++ more), .hit fresh hlook hbelow hmore, fun what => ?_⟩
    rw [List.countP_append, List.countP_append, List.length_cons, List.length_append, Nat.succ_mul,
      Nat.add_mul, Nat.add_comm]
    exact Nat.add_le_add (Nat.add_le_add (hcount what) (hcount' what)) (hasked what)

/-- The names along a trail form a chain of declarations that use one another. -/
theorem Visits.exists_chain (h : r.Visits origin depth other names s log t) {x : Visit} (hx : x ∈ log) :
    ∃ chain : List (List Char), chain.IsChain (Uses (findings log)) ∧
      (∃ name ∈ names, chain.head? = some name) ∧ chain.getLast? = some x.name ∧
      chain.length ≤ depth := by
  obtain ⟨trail, htrail⟩ := h.exists_trail hx
  obtain ⟨first, hhead, hfirst, -, -⟩ := htrail.first
  have hlen := htrail.length
  have hpos := (h.depth_le hx).1
  refine ⟨trail.map (·.name), ?_, ⟨first.name, hfirst, by rw [List.head?_map, hhead]; rfl⟩, ?_, ?_⟩
  · refine (List.isChain_map _).mpr (htrail.chain.imp_of_mem_imp fun y z hy _ hyz => ?_)
    obtain ⟨found, hfound, huses, -, -⟩ := hyz
    have hy := htrail.mem y hy
    exact ⟨found, mem_findings.mpr ⟨y, hy, hfound⟩, h.name_of_result hy hfound, huses⟩
  · rw [List.getLast?_map, htrail.last]
    rfl
  · rw [List.length_map]
    omega

/-- The newly visited names are those of the visits. -/
theorem Visits.toFinset_sdiff (h : r.Visits origin depth other names s log t) :
    t.visited.toFinset \ s.visited.toFinset = (log.map (·.name)).toFinset := by
  ext m
  rw [h.visited_eq]
  simp only [List.toFinset_append, Finset.mem_sdiff, Finset.mem_union, List.mem_toFinset]
  constructor
  · exact fun ⟨hm, hnot⟩ => hm.resolve_left hnot
  · intro hm
    obtain ⟨x, hx, rfl⟩ := List.mem_map.mp hm
    exact ⟨.inr hm, h.nodup_visited.2 x hx⟩

theorem Visits.card_names (h : r.Visits origin depth other names s log t) :
    (log.map (·.name)).toFinset.card = log.length := by
  rw [List.toFinset_card_of_nodup h.nodup_visited.1, List.length_map]

/-- The entries of what a walk finds have different names. -/
theorem Visits.nodup_entries (h : r.Visits origin depth other names s log t) :
    (((findings log).map r.entry).map (·.name)).Nodup := by
  have hmap : ((findings log).map r.entry).map (·.name) =
      ((findings log).map (·.name)).map String.ofList := by
    rw [List.map_map, List.map_map]
    rfl
  rw [hmap]
  exact (h.names_sublist.nodup h.nodup_visited.1).map fun _ _ => String.ofList_injective

/-- The names of the entries are those of the visits on which something has been found. -/
theorem Visits.mem_names (h : r.Visits origin depth other names s log t) {m : String} :
    m ∈ ((findings log).map r.entry).map (·.name) ↔
      ∃ x ∈ log, x.name = m.toList ∧ x.result.isSome := by
  constructor
  · intro hm
    obtain ⟨_, htype, rfl⟩ := List.mem_map.mp hm
    obtain ⟨found, hfound, rfl⟩ := List.mem_map.mp htype
    obtain ⟨x, hx, hresult⟩ := mem_findings.mp hfound
    refine ⟨x, hx, ?_, by rw [hresult]; rfl⟩
    rw [← h.name_of_result hx hresult]
    exact String.toList_ofList.symm
  · rintro ⟨x, hx, hname, hsome⟩
    obtain ⟨found, hresult⟩ := Option.isSome_iff_exists.mp hsome
    refine List.mem_map.mpr ⟨r.entry found, List.mem_map_of_mem (mem_findings.mpr ⟨x, hx, hresult⟩), ?_⟩
    show String.ofList found.name = m
    rw [h.name_of_result hx hresult, hname, String.ofList_toList]

/-! ### Resolving a name -/

variable (r) (doc : Document) (name : List Char) (budget : Int) (visited : List (List Char))
  (start : ResolverState σ)

theorem resolve_eq (h : r.Visits doc budget.toNat none [name] ⟨start, visited⟩ log t) :
    r.resolve doc name budget visited start =
      (((findings log).map r.entry, t.visited), t.toResolverState) := by
  unfold resolve
  rw [h.walk_eq]

/-- The names that a unit of code uses are walked through one after the other. -/
theorem typesForFunction_eq {unit : CodeUnit} {depth : Int}
    (h : r.Visits doc depth.toNat none (customTypes unit.text.toList) ⟨start, []⟩ log t) :
    r.typesForFunction doc unit depth start =
      (dedupeTypes ((findings log).map r.entry), t.toResolverState) := by
  obtain ⟨hfound, hstate⟩ := h.run
  rw [← hfound, ← hstate]
  rfl

variable {r doc name budget start} in
/-- The types that are returned are those found on the visits. -/
theorem mem_resolvedNames (h : r.Visits doc budget.toNat none [name] ⟨start, []⟩ log t) {m : String} :
    m ∈ r.resolvedNames doc name budget start ↔ ∃ x ∈ log, x.name = m.toList ∧ x.result.isSome := by
  unfold resolvedNames
  rw [resolve_eq r doc name budget [] start h]
  exact h.mem_names

/-- Without depth, or for a name visited before, nothing happens. -/
theorem resolve_of_passed (h : budget ≤ 0 ∨ name ∈ visited) :
    r.resolve doc name budget visited start = (([], visited), start) := by
  unfold resolve
  have hpass : budget.toNat = 0 ∨ name ∈ visited := h.imp_left Int.toNat_of_nonpos
  rw [walk_of_passed r doc (s := ⟨start, visited⟩) none hpass]
  rfl

theorem resolveCalls_of_passed (h : budget ≤ 0 ∨ name ∈ visited) :
    r.resolveCalls doc name budget visited start = [] := by
  unfold resolveCalls
  rw [resolve_of_passed _ doc name budget visited (start.recorded []) h]
  rfl

theorem resolveCalls_eq {calls : List ProviderCall}
    (h : (r.via r.provider.recording).Visits doc budget.toNat none [name]
      ⟨start.recorded [], visited⟩ log (t.recorded calls)) :
    r.resolveCalls doc name budget visited start = calls := by
  unfold resolveCalls
  rw [resolve_eq (r.via r.provider.recording) doc name budget visited (start.recorded []) h]
  rfl

/-- **Keeping a list of the questions changes nothing**: the same is returned, and what the resolver
remembers is the same. -/
theorem resolve_recording :
    (r.via r.provider.recording).resolve doc name budget visited (start.recorded []) =
      ((r.resolve doc name budget visited start).1,
        (r.resolve doc name budget visited start).2.recorded
          (r.resolveCalls doc name budget visited start)) := by
  obtain ⟨log, t, h⟩ := r.exists_visits doc budget.toNat none [name] ⟨start, visited⟩
  obtain ⟨calls, hrec, -⟩ := h.recording []
  rw [resolveCalls_eq r doc name budget visited start hrec,
    resolve_eq r doc name budget visited start h,
    resolve_eq (r.via r.provider.recording) doc name budget visited (start.recorded []) hrec]
  rfl

/-- **Resolving a name stays within bounds.** Nothing is done without depth or for a name visited
before. Otherwise the entries have different names, all newly visited; a newly visited name ends a chain
of at most as many names as there is depth, each used by the declaration found for the one before; and
there are at most two questions for definitions of types, and two for definitions, for each newly visited
name. The questions are those of this run: with a list of them kept it is the same. -/
theorem resolve_within_bounds :
    let run := r.resolve doc name budget visited start
    let types := run.1.1
    let after := run.1.2
    let found := (r.walk doc budget.toNat none name ⟨start, visited⟩).1
    let calls := r.resolveCalls doc name budget visited start
    let fresh := after.toFinset \ visited.toFinset
    (budget ≤ 0 ∨ name ∈ visited → types = [] ∧ after = visited ∧ run.2 = start ∧ calls = []) ∧
    visited ⊆ after ∧
    (types.map (·.name)).Nodup ∧ (∀ type ∈ types, type.name.toList ∈ fresh) ∧
    types = found.map r.entry ∧ (∀ f ∈ found, r.Stands run.2 f) ∧
    (∀ m ∈ fresh, ∃ chain : List (List Char), chain.head? = some name ∧ chain.getLast? = some m ∧
      chain.length ≤ budget ∧ chain.IsChain (Uses found)) ∧
    calls.countP (ProviderCall.asksFor .typeDefinitions) ≤ 2 * fresh.card ∧
    calls.countP (ProviderCall.asksFor .definitions) ≤ 2 * fresh.card ∧
    (r.via r.provider.recording).resolve doc name budget visited (start.recorded []) =
      (run.1, run.2.recorded calls) := by
  obtain ⟨log, t, h⟩ := r.exists_visits doc budget.toNat none [name] ⟨start, visited⟩
  obtain ⟨calls, hrec, hcalls⟩ := h.recording []
  have hrun := resolve_eq r doc name budget visited start h
  have hasked := resolveCalls_eq r doc name budget visited start hrec
  have hrecording := resolve_recording r doc name budget visited start
  rw [hrun, hasked] at hrecording
  have hfresh : t.visited.toFinset \ visited.toFinset = (log.map (·.name)).toFinset :=
    h.toFinset_sdiff
  simp only [hrun, h.walk_eq, hasked, hfresh, h.card_names]
  refine ⟨fun hpass => ?_, fun m hm => h.mem_visited hm, h.nodup_entries, fun type htype => ?_,
    trivial, fun f hf => ?_, fun m hm => ?_, ?_, ?_, hrecording⟩
  · -- without depth, or for a name visited before
    rw [resolve_of_passed r doc name budget visited start hpass] at hrun
    rw [resolveCalls_of_passed r doc name budget visited start hpass] at hasked
    obtain ⟨hpair, hstate⟩ := Prod.mk.inj hrun
    obtain ⟨htypes, hafter⟩ := Prod.mk.inj hpair
    exact ⟨htypes.symm, hafter.symm, hstate.symm, hasked.symm⟩
  · obtain ⟨f, hf, rfl⟩ := List.mem_map.mp htype
    have hname : (r.entry f).name.toList = f.name := String.toList_ofList
    rw [hname]
    exact List.mem_toFinset.mpr (h.names_sublist.subset (List.mem_map_of_mem hf))
  · obtain ⟨x, hx, hf⟩ := mem_findings.mp hf
    exact h.stands hx hf
  · obtain ⟨x, hx, rfl⟩ := List.mem_map.mp (List.mem_toFinset.mp hm)
    obtain ⟨chain, hchain, ⟨_, hname, hhead⟩, hlast, hlen⟩ := h.exists_chain hx
    rw [List.mem_singleton.mp hname] at hhead
    have hpos := (h.depth_le hx).1.trans_le (h.depth_le hx).2
    exact ⟨chain, hhead, hlast, by omega, hchain⟩
  · simpa [Nat.mul_comm] using hcalls .typeDefinitions
  · simpa [Nat.mul_comm] using hcalls .definitions

end Vicinity.Resolver
