import Vicinity.Proofs.Resolver.Detour

/-!
# What depth changes

With more depth a walk goes further, but it may also come to a name by a longer way than before, and with
less depth left below. So more depth can lose a type: this module shows when.

## What is proved

* `resolve_deeper`: what is lost ends a detour, or is ambiguous, where there was depth enough for that.
-/

namespace Vicinity.Resolver

variable {σ : Type} {r : Resolver σ} {s : ResolverState σ} {origin : Document} {depth : Nat}
  {names : List (List Char)} {u v : Walk σ} {log : List Visit}

/-- Where one name was asked for, the visit to it is the first. -/
theorem Visits.isFirst_of_name {name : List Char} (h : r.Visits origin depth none [name] u log v)
    (hnew : name ∉ u.visited) {x : Visit} (hx : x ∈ log) (hname : x.name = name) :
    x.IsFirst depth none [name] := by
  have hpos := (h.depth_le hx).1.trans_le (h.depth_le hx).2
  have hunique := fun y hy => h.eq_of_name_eq (x := x) (y := y) hx hy
  cases h with
  | skip hpass _ => exact absurd hpass (not_or.mpr ⟨Nat.ne_of_gt hpos, hnew⟩)
  | miss _ _ _ =>
    rw [hunique _ List.mem_cons_self hname]
    exact ⟨List.mem_cons_self, rfl, rfl⟩
  | hit _ _ _ _ =>
    rw [hunique _ List.mem_cons_self hname]
    exact ⟨List.mem_cons_self, rfl, rfl⟩

/-- **More depth loses a type only by a detour or an ambiguity.** What is returned with some depth is
returned with more depth, unless a chain of more names than the greater depth leads to it, too, or a name
on the way to it is found differently from different documents; the first takes a depth of three, the
second of two. -/
theorem resolve_deeper (hs : r.Steady s) {doc : Document} {name : List Char} {d d' : Int}
    (hd : d ≤ d') {m : String} (hm : m ∈ r.resolvedNames doc name d s) :
    m ∈ r.resolvedNames doc name d' s ∨
      (2 < d ∧ d < d' ∧ Detour (r.look doc s) [name] d' m.toList) ∨
      (1 < d ∧ d < d' ∧ Ambiguous (r.look doc s) [name] m.toList) := by
  rcases hd.eq_or_lt with rfl | hlt
  · exact .inl hm
  obtain ⟨log, t, h⟩ := r.exists_visits doc d.toNat none [name] ⟨s, []⟩
  obtain ⟨log', t', h'⟩ := r.exists_visits doc d'.toNat none [name] ⟨s, []⟩
  have hlook := (h.result_eq hs hs.agrees).1
  have hlook' := (h'.result_eq hs hs.agrees).1
  obtain ⟨x, hx, hname, hsome⟩ := (mem_resolvedNames h).mp hm
  obtain ⟨chain, hchain, hlast, hlen⟩ := h.exists_mentions hlook hx
  obtain ⟨first, hfirst, hhead⟩ := hchain.first
  have hpos : 0 < chain.length := List.length_pos_of_mem (List.mem_of_head? hhead)
  have hstart : ∀ z ∈ log', z.name = name → z.IsFirst d'.toNat none [name] :=
    fun z hz hz' => h'.isFirst_of_name List.not_mem_nil hz hz'
  have hone : d.toNat = 1 → ∀ z ∈ log', z.name = x.name → z.other = none := by
    intro hd1 z hz hz'
    have hx1 := h.depth_le hx
    obtain ⟨hmem, -, -⟩ := h.isFirst_of_depth hx (by omega)
    exact (hstart z hz (hz'.trans (List.mem_singleton.mp hmem))).2.1
  rcases h'.kept hlook' rfl (by omega) hchain hlast hlen hone with
    ⟨z, hz, hzname, hresult⟩ | ⟨hd1, hambiguous⟩ | ⟨pre, a, b, post, rfl, ⟨z, hz, hzname, hzdepth⟩, hdetour⟩
  · refine .inl ((mem_resolvedNames h').mpr ⟨z, hz, hzname.trans hname, ?_⟩)
    rwa [hresult, ← hlook x hx]
  · exact .inr (.inr ⟨by omega, hlt, hname ▸ hambiguous⟩)
  · rw [List.length_append, List.length_cons, List.length_cons] at hlen
    have hd' : (d'.toNat : Int) = d' := Int.toNat_of_nonneg (by omega)
    refine .inr (.inl ⟨?_, hlt, hd' ▸ hname ▸ hdetour⟩)
    -- the visit with no depth left is not the first, so there is a name before it on the chain
    cases pre with
    | cons _ _ =>
      rw [List.length_cons] at hlen
      omega
    | nil =>
      cases hhead
      have := (hstart z hz (hzname.trans (List.mem_singleton.mp hfirst))).2.2
      omega

/-! ### Types that are lost -/

/-- Types in one file: a short way and a long way lead from `Top` to `Mid`. -/
def twoWays : AnswerTables :=
  .ofTypes [("/a", "type Top Via Mid\ntype Via Next\ntype Next Mid\ntype Mid End\ntype End")]
    [("Top", "/a", .of 0 5 0 8), ("Via", "/a", .of 1 5 1 8), ("Next", "/a", .of 2 5 2 9),
      ("Mid", "/a", .of 3 5 3 8), ("End", "/a", .of 4 5 4 8)]

/-- Types in two files: where `Via` is declared, `End` first occurs as a part of another word. -/
def twoFiles : AnswerTables :=
  .ofTypes [("/a", "Top Via Next"), ("/b", "type Top Via End\ntype Next End\ntype End"),
      ("/c", "type Via Ends End")]
    [("Top", "/b", .of 0 5 0 8), ("Next", "/b", .of 1 5 1 9), ("End", "/b", .of 2 5 2 8),
      ("Via", "/c", .of 0 5 0 8)]

/-- The names of the types that a resolver with prepared answers returns for a name in `/a`. -/
def namesFrom (t : AnswerTables) (name : String) (depth : Int) : List String :=
  AnswerTables.resolver.resolvedNames (t.document "/a") name.toList depth ⟨t, []⟩

theorem namesFrom_twoWays_three : namesFrom twoWays "Top" 3 = ["Top", "Via", "Next", "Mid", "End"] := by
  decide +kernel

/-- What a greater depth does to a type to which a short way and a long way lead. -/
theorem end_kept_or_lost :
    let look := AnswerTables.resolver.look (twoWays.document "/a") ⟨twoWays, []⟩
    AnswerTables.resolver.Steady ⟨twoWays, []⟩ ∧ (3 : Int) ≤ 4 ∧ "End" ∈ namesFrom twoWays "Top" 3 ∧
      ("End" ∈ namesFrom twoWays "Top" 4 ∨
        (2 < (3 : Int) ∧ (3 : Int) < 4 ∧ Detour look ["Top".toList] 4 "End".toList) ∨
        (1 < (3 : Int) ∧ (3 : Int) < 4 ∧ Ambiguous look ["Top".toList] "End".toList)) := by
  have hsteady : AnswerTables.resolver.Steady ⟨twoWays, []⟩ := .of_new twoWays.steady
  have hmem : "End" ∈ namesFrom twoWays "Top" 3 := by
    rw [namesFrom_twoWays_three]
    decide
  exact ⟨hsteady, by decide, hmem, resolve_deeper hsteady (by decide) hmem⟩

/-- More depth can lose a type: by a longer way to the types on the way, and by another document in
which a name is looked for. -/
theorem namesFrom_not_mono :
    (AnswerTables.resolver.Steady ⟨twoWays, []⟩ ∧
      "End" ∈ namesFrom twoWays "Top" 3 ∧ "End" ∉ namesFrom twoWays "Top" 4) ∧
    (AnswerTables.resolver.Steady ⟨twoFiles, []⟩ ∧
      "End" ∈ namesFrom twoFiles "Top" 2 ∧ "End" ∉ namesFrom twoFiles "Top" 3) := by
  refine ⟨⟨.of_new twoWays.steady, ?_, ?_⟩, ⟨.of_new twoFiles.steady, ?_, ?_⟩⟩
  · rw [namesFrom_twoWays_three]
    decide
  · decide +kernel
  · decide +kernel
  · decide +kernel

end Vicinity.Resolver
