import Mathlib.Logic.Relation
import Vicinity.Proofs.Resolver.Steady

/-!
# Detours

A walk marks a name when it comes to it, with as much depth left below as it has then, and does not come
back to it. So a name that one walk finds may be lost to another, which comes to a name on the way by a
longer way, with less depth left, or which looks a name on the way up from another document. Where the
provider is steady these are the only two reasons (`Visits.kept`).

## What is proved

* `Visits.exists_mentions`: every visit ends a chain of mentions, each of which leads to the next.
* `Visits.found_or_cut`: a walk finds what such a chain ends with, or it is cut off on the way, at the
  end of a detour, unless the name that the chain ends with is ambiguous.
* `Visits.kept`: so a walk finds what another walk with no more depth has found, with these exceptions.
-/

namespace Vicinity.Resolver

open Relation

/-- The declaration found for one mention makes the other. -/
def Mention.Leads (look : Mention → Option Finding) (a b : Mention) : Prop :=
  ∃ found, look a = some found ∧ b.name ∈ found.uses ∧ b.other = found.declaring

/-- Mentions of different names, each of which leads to the next, from one of the names on. -/
structure Chain (look : Mention → Option Finding) (names : List (List Char)) (chain : List Mention) :
    Prop where
  first : ∃ name ∈ names, chain.head? = some ⟨none, name⟩
  leads : chain.IsChain (Mention.Leads look)
  nodup : (chain.map (·.name)).Nodup

/-- A chain of more names than `depth` leads from one of the names to the name `m`. -/
def Detour (look : Mention → Option Finding) (names : List (List Char)) (depth : Int)
    (m : List Char) : Prop :=
  ∃ chain other, Chain look names chain ∧ chain.getLast? = some ⟨other, m⟩ ∧ depth < chain.length

/-- A mention to which one of the names leads. -/
def Reached (look : Mention → Option Finding) (names : List (List Char)) (a : Mention) : Prop :=
  ∃ name ∈ names, ReflTransGen (Mention.Leads look) ⟨none, name⟩ a

/-- A name on the way from one of the names to the name `m` is found differently when it is looked for
from another document. -/
def Ambiguous (look : Mention → Option Finding) (names : List (List Char)) (m : List Char) : Prop :=
  ∃ a b : Mention, Reached look names a ∧ Reached look names b ∧ a.name = b.name ∧ look a ≠ look b ∧
    ∃ other, ReflTransGen (Mention.Leads look) a ⟨other, m⟩

variable {σ : Type} {r : Resolver σ} {look : Mention → Option Finding} {origin : Document} {depth : Nat}
  {names : List (List Char)} {u v : Walk σ} {log : List Visit}

section More

variable {names' : List (List Char)} (h : ∀ name ∈ names, name ∈ names')

include h

theorem Chain.mono {chain : List Mention} (hchain : Chain look names chain) :
    Chain look names' chain := by
  obtain ⟨⟨name, hname, hhead⟩, hleads, hnodup⟩ := hchain
  exact ⟨⟨name, h name hname, hhead⟩, hleads, hnodup⟩

theorem Detour.mono {d : Int} {m : List Char} (hm : Detour look names d m) :
    Detour look names' d m := by
  obtain ⟨chain, other, hchain, hlast, hlong⟩ := hm
  exact ⟨chain, other, hchain.mono h, hlast, hlong⟩

theorem Reached.mono {a : Mention} (ha : Reached look names a) : Reached look names' a := by
  obtain ⟨name, hname, hto⟩ := ha
  exact ⟨name, h name hname, hto⟩

theorem Ambiguous.mono {m : List Char} (hm : Ambiguous look names m) : Ambiguous look names' m := by
  obtain ⟨a, b, ha, hb, hrest⟩ := hm
  exact ⟨a, b, ha.mono h, hb.mono h, hrest⟩

end More

/-! ### Trails as chains -/

/-- The mentions along a trail form a chain, where the visits find what looking up gives. -/
theorem Visits.chain_of_trail (h : r.Visits origin depth none names u log v)
    (hlook : ∀ x ∈ log, x.result = look x.mention) {x : Visit} {trail : List Visit}
    (htrail : Trail depth none names log x trail) :
    Chain look names (trail.map (·.mention)) ∧
      (trail.map (·.mention)).getLast? = some x.mention := by
  obtain ⟨first, hhead, hfirst, hother, -⟩ := htrail.first
  refine ⟨⟨⟨first.name, hfirst, ?_⟩, ?_, ?_⟩, by rw [List.getLast?_map, htrail.last]; rfl⟩
  · rw [List.head?_map, hhead, ← hother]
    rfl
  · refine (List.isChain_map _).mpr (htrail.chain.imp_of_mem_imp fun y z hy _ hyz => ?_)
    obtain ⟨found, hfound, huses, hdeclaring, -⟩ := hyz
    exact ⟨found, (hlook y (htrail.mem y hy)).symm.trans hfound, huses, hdeclaring⟩
  · rw [List.map_map]
    exact htrail.nodup h

/-- The mentions of a chain are reached. -/
theorem Chain.reached {chain : List Mention} (h : Chain look names chain) {a : Mention}
    (ha : a ∈ chain) : Reached look names a := by
  refine h.leads.induction (Reached look names) chain (fun b c hbc hb => ?_) (fun hne => ?_) a ha
  · obtain ⟨name, hname, hto⟩ := hb
    exact ⟨name, hname, hto.tail hbc⟩
  · obtain ⟨name, hname, hhead⟩ := h.first
    rw [List.head?_eq_some_head hne] at hhead
    exact ⟨name, hname, (Option.some.inj hhead) ▸ ReflTransGen.refl⟩

/-- The mentions of a chain lead to its last one. -/
theorem Chain.leads_to {chain : List Mention} (h : Chain look names chain) {a b : Mention}
    (ha : a ∈ chain) (hb : chain.getLast? = some b) : ReflTransGen (Mention.Leads look) a b := by
  refine h.leads.backwards_induction (ReflTransGen (Mention.Leads look) · b) chain
    (fun c d hcd hd => hd.head hcd) (fun hne => ?_) a ha
  rw [List.getLast?_eq_some_getLast hne] at hb
  exact (Option.some.inj hb) ▸ ReflTransGen.refl

/-- So every visit ends a chain that is no longer than the depth allows. -/
theorem Visits.exists_mentions (h : r.Visits origin depth none names u log v)
    (hlook : ∀ x ∈ log, x.result = look x.mention) {x : Visit} (hx : x ∈ log) :
    ∃ chain, Chain look names chain ∧ chain.getLast? = some x.mention ∧ chain.length ≤ depth := by
  obtain ⟨trail, htrail⟩ := h.exists_trail hx
  obtain ⟨hchain, hlast⟩ := h.chain_of_trail hlook htrail
  refine ⟨_, hchain, hlast, ?_⟩
  have hlen := htrail.length
  have hpos := (h.depth_le hx).1
  rw [List.length_map]
  omega

/-- Every visit is to a mention that is reached. -/
theorem Visits.reached (h : r.Visits origin depth none names u log v)
    (hlook : ∀ x ∈ log, x.result = look x.mention) {x : Visit} (hx : x ∈ log) :
    Reached look names x.mention := by
  obtain ⟨chain, hchain, hlast, -⟩ := h.exists_mentions hlook hx
  exact hchain.reached (List.mem_of_getLast? hlast)

/-! ### Where a chain is cut off -/

/-- Among the elements of a list with a property there is a last one. -/
theorem exists_last {α : Type} {p : α → Prop} {l : List α} (h : ∃ a ∈ l, p a) :
    ∃ l₁ a l₂, l = l₁ ++ a :: l₂ ∧ p a ∧ ∀ b ∈ l₂, ¬p b := by
  induction l with
  | nil =>
    obtain ⟨_, ha, -⟩ := h
    cases ha
  | cons x l ih =>
    by_cases hl : ∃ a ∈ l, p a
    · obtain ⟨l₁, a, l₂, rfl, ha, hlast⟩ := ih hl
      exact ⟨x :: l₁, a, l₂, rfl, ha, hlast⟩
    · obtain ⟨a, ha, hp⟩ := h
      rcases List.mem_cons.mp ha with rfl | ha
      · exact ⟨[], a, l, rfl, hp, fun b hb hpb => hl ⟨b, hb, hpb⟩⟩
      · exact absurd ⟨a, ha, hp⟩ hl

/-- Where a chain is visited up to a visit with no depth left below it, the way to that visit and the
rest of the chain are a detour. -/
theorem Visits.detour_of_cut (h : r.Visits origin depth none names u log v)
    (hlook : ∀ x ∈ log, x.result = look x.mention) {pre post : List Mention} {a b : Mention}
    (hchain : Chain look names (pre ++ a :: b :: post)) {last : Mention}
    (hlast : (pre ++ a :: b :: post).getLast? = some last) {z : Visit} (hz : z ∈ log)
    (hresult : z.result = look a) (hdepth : z.depth = 1)
    (hrest : ∀ c ∈ b :: post, c.name ∉ v.visited) : Detour look names depth last.name := by
  obtain ⟨trail, htrail⟩ := h.exists_trail hz
  obtain ⟨hway, hend⟩ := h.chain_of_trail hlook htrail
  have hlen := htrail.length
  have hleads := hchain.leads.right_of_append
  refine ⟨trail.map (·.mention) ++ b :: post, last.other, ⟨?_, ?_, ?_⟩, ?_, ?_⟩
  · obtain ⟨name, hname, hhead⟩ := hway.first
    refine ⟨name, hname, ?_⟩
    rw [List.head?_append, hhead]
    rfl
  · refine List.isChain_append.mpr ⟨hway.leads, hleads.of_cons, fun c hc d hd => ?_⟩
    rw [hend] at hc
    cases hc
    cases hd
    obtain ⟨found, hfound, huses⟩ := hleads.rel
    exact ⟨found, ((hlook z hz).symm.trans hresult).trans hfound, huses⟩
  · have hsub : (b :: post).Sublist (pre ++ a :: b :: post) :=
      (List.sublist_cons_self a _).trans (List.sublist_append_right pre _)
    rw [List.map_append]
    refine List.nodup_append.mpr ⟨hway.nodup, (hsub.map _).nodup hchain.nodup, ?_⟩
    intro n hn n' hn' heq
    obtain ⟨c, hc, rfl⟩ := List.mem_map.mp hn
    obtain ⟨y, hy, rfl⟩ := List.mem_map.mp hc
    obtain ⟨d, hd, rfl⟩ := List.mem_map.mp hn'
    refine hrest d hd ?_
    rw [← heq, h.visited_eq]
    exact List.mem_append_right _ (List.mem_map_of_mem (htrail.mem y hy))
  · rw [List.getLast?_append_of_ne_nil _ (List.cons_ne_nil b post)]
    rwa [List.getLast?_append_of_ne_nil _ (List.cons_ne_nil a _), List.getLast?_cons_cons] at hlast
  · rw [List.length_append, List.length_map, List.length_cons]
    omega

/-- A name of a chain that is visited is found as on the chain, unless the chain's last name is
ambiguous. -/
theorem Visits.found_on_chain (h : r.Visits origin depth none names u log v)
    (hlook : ∀ x ∈ log, x.result = look x.mention) (hnew : u.visited = []) {chain : List Mention}
    (hchain : Chain look names chain) {last : Mention} (hlast : chain.getLast? = some last)
    (hclear : ¬Ambiguous look names last.name) {a : Mention} (ha : a ∈ chain)
    (hvisited : a.name ∈ v.visited) : ∃ z ∈ log, z.name = a.name ∧ z.result = look a := by
  obtain ⟨z, hz, hname⟩ := h.exists_of_mem_visited hvisited (by simp [hnew])
  refine ⟨z, hz, hname, ?_⟩
  by_contra hne
  rw [hlook z hz] at hne
  exact hclear ⟨a, z.mention, hchain.reached ha, h.reached hlook hz, hname.symm, Ne.symm hne,
    last.other, hchain.leads_to ha hlast⟩

/-- **A chain is walked to its end or cut off**, unless its last name is ambiguous: if the walk does not
find what the chain ends with, then it comes to one of the names before with no depth left below, by a
detour. -/
theorem Visits.found_or_cut (h : r.Visits origin depth none names u log v)
    (hlook : ∀ x ∈ log, x.result = look x.mention) (hnew : u.visited = []) (hd : 0 < depth)
    {chain : List Mention} (hchain : Chain look names chain) {last : Mention}
    (hlast : chain.getLast? = some last) (hclear : ¬Ambiguous look names last.name) :
    (∃ z ∈ log, z.name = last.name ∧ z.result = look last) ∨
      ∃ pre a b post, chain = pre ++ a :: b :: post ∧ (∃ z ∈ log, z.name = a.name ∧ z.depth = 1) ∧
        Detour look names depth last.name := by
  obtain ⟨first, hfirst, hhead⟩ := hchain.first
  obtain ⟨pre, a, rest, rfl, ha, hrest⟩ := exists_last (p := fun c : Mention => c.name ∈ v.visited)
    ⟨_, List.mem_of_head? hhead, h.names_visited hd hfirst⟩
  obtain ⟨z, hz, hname, hresult⟩ := h.found_on_chain hlook hnew hchain hlast hclear
    (List.mem_append_right pre List.mem_cons_self) ha
  cases rest with
  | nil =>
    rw [List.getLast?_append_of_ne_nil _ (List.cons_ne_nil a _)] at hlast
    cases hlast
    exact .inl ⟨z, hz, hname, hresult⟩
  | cons b post =>
    obtain ⟨found, hfound, huses, -⟩ := hchain.leads.right_of_append.rel
    have hdepth : z.depth = 1 := by
      have hpos := (h.depth_le hz).1
      by_contra hne
      exact hrest b List.mem_cons_self (h.uses_visited hz (hresult.trans hfound) (by omega) huses)
    exact .inr ⟨pre, a, b, post, rfl, ⟨z, hz, hname, hdepth⟩,
      h.detour_of_cut hlook hchain hlast hz hresult hdepth hrest⟩

/-! ### What another walk finds -/

/-- A visit for which no depth has been used up is to a name that was asked for. -/
theorem Visits.isFirst_of_depth (h : r.Visits origin depth none names u log v) {x : Visit}
    (hx : x ∈ log) (hdepth : x.depth = depth) : x.IsFirst depth none names := by
  rcases h.came_from hx with hfirst | ⟨y, hy, _, -, -, -, hyx⟩
  · exact hfirst
  · have := (h.depth_le hy).2
    omega

/-- A walk finds for the names that it is asked for what looking them up in the origin gives, if it does
not come to them from elsewhere. -/
theorem Visits.found_first (h : r.Visits origin depth none names u log v)
    (hlook : ∀ x ∈ log, x.result = look x.mention) (hnew : u.visited = []) (hd : 0 < depth)
    {name : List Char} (hname : name ∈ names) (horigin : ∀ z ∈ log, z.name = name → z.other = none) :
    ∃ z ∈ log, z.name = name ∧ z.result = look ⟨none, name⟩ := by
  obtain ⟨z, hz, rfl⟩ := h.exists_of_mem_visited (h.names_visited hd hname) (by simp [hnew])
  refine ⟨z, hz, rfl, ?_⟩
  rw [hlook z hz, Visit.mention, horigin z hz rfl]

/-- **What a walk with less depth may find is kept**: what ends a chain no longer than the lesser depth is
found, unless the walk is cut off at the end of a detour, or the name is ambiguous. A chain of one name is
walked in any case, if the walk does not come to the name from elsewhere. -/
theorem Visits.kept (h : r.Visits origin depth none names u log v)
    (hlook : ∀ x ∈ log, x.result = look x.mention) (hnew : u.visited = []) {depth' : Nat}
    (hle : depth' ≤ depth) {chain : List Mention} (hchain : Chain look names chain) {last : Mention}
    (hlast : chain.getLast? = some last) (hlen : chain.length ≤ depth')
    (horigin : depth' = 1 → ∀ z ∈ log, z.name = last.name → z.other = none) :
    (∃ z ∈ log, z.name = last.name ∧ z.result = look last) ∨
      (1 < depth' ∧ Ambiguous look names last.name) ∨
      ∃ pre a b post, chain = pre ++ a :: b :: post ∧ (∃ z ∈ log, z.name = a.name ∧ z.depth = 1) ∧
        Detour look names depth last.name := by
  obtain ⟨first, hfirst, hhead⟩ := hchain.first
  have hpos : 0 < chain.length := List.length_pos_of_mem (List.mem_of_head? hhead)
  by_cases hone : depth' = 1
  · obtain ⟨a, rfl⟩ := List.length_eq_one_iff.mp (show chain.length = 1 by omega)
    cases hhead
    cases hlast
    exact .inl (h.found_first hlook hnew (by omega) hfirst (horigin hone))
  · by_cases hclear : Ambiguous look names last.name
    · exact .inr (.inl ⟨by omega, hclear⟩)
    · exact (h.found_or_cut hlook hnew (by omega) hchain hlast hclear).imp_right .inr

end Vicinity.Resolver
