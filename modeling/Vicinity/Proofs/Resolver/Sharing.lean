import Vicinity.Proofs.Resolver.Depth

/-!
# Several names in one walk

The names that a unit of code uses are resolved in one walk, so that a type that several of them need is
visited once. This module compares the walk with resolving each name alone: a walk that comes to a name
from one of the others may have less depth left for it, and may look it up from another document.

## What is proved

* `mem_functionNames`: the types of a unit of code are those of the visits of its walk, though an entry
  with the same name and file as an earlier one is left out.
* `typesForFunction_names`: they are the types of its names alone, whatever the order of the names,
  with the exceptions that may also be made by more depth.
-/

namespace Vicinity.Resolver

variable {σ : Type} {r : Resolver σ} {s : ResolverState σ}

/-- The names of the types of a unit of code. -/
def functionNames (r : Resolver σ) (doc : Document) (unit : CodeUnit) (depth : Int)
    (s : ResolverState σ) : List String :=
  (r.typesForFunction doc unit depth s).1.map (·.name)

/-- Whether a walk finds a type may depend on the order in which it comes to the names: there is depth
for more than the names themselves, and a longer chain of names leads to the type, or it is ambiguous. -/
def MayLose (look : Mention → Option Finding) (names : List (List Char)) (depth : Int)
    (m : List Char) : Prop :=
  1 < depth ∧ (Detour look names depth m ∨ Ambiguous look names m)

theorem MayLose.mono {look : Mention → Option Finding} {names names' : List (List Char)} {depth : Int}
    {m : List Char} (h : ∀ name ∈ names, name ∈ names') (hm : MayLose look names depth m) :
    MayLose look names' depth m := by
  obtain ⟨hd, hm⟩ := hm
  exact ⟨hd, hm.imp (Detour.mono h) (Ambiguous.mono h)⟩

/-! ### The walk of a unit of code -/

/-- No name is lost where entries are left out. -/
theorem mem_names_dedupeTypes {types : List TypeEntry} {m : String} :
    m ∈ (dedupeTypes types).map (·.name) ↔ m ∈ types.map (·.name) := by
  constructor
  · exact fun hm => ((firstByKey_sublist _ types).map _).subset hm
  · intro hm
    obtain ⟨type, htype, rfl⟩ := List.mem_map.mp hm
    have hsame : ∃ kept ∈ dedupeTypes types, (kept.name, kept.filename) = (type.name, type.filename) :=
      exists_mem_firstByKey htype
    obtain ⟨kept, hkept, hkey⟩ := hsame
    exact List.mem_map.mpr ⟨kept, hkept, (Prod.mk.inj hkey).1⟩

/-- The types of a unit of code are those of the visits of its walk. -/
theorem mem_functionNames {doc : Document} {unit : CodeUnit} {d : Int} {log : List Visit} {t : Walk σ}
    (h : r.Visits doc d.toNat none (customTypes unit.text.toList) ⟨s, []⟩ log t) {m : String} :
    m ∈ r.functionNames doc unit d s ↔ ∃ x ∈ log, x.name = m.toList ∧ x.result.isSome := by
  unfold functionNames
  rw [typesForFunction_eq r doc s h, mem_names_dedupeTypes]
  exact h.mem_names

/-- A walk finds what ends a chain no longer than its depth, unless it may lose it. -/
theorem Visits.found_or_may_lose {look : Mention → Option Finding} {origin : Document} {depth : Nat}
    {names : List (List Char)} {u v : Walk σ} {log : List Visit}
    (h : r.Visits origin depth none names u log v) (hlook : ∀ x ∈ log, x.result = look x.mention)
    (hnew : u.visited = []) {chain : List Mention} (hchain : Chain look names chain) {last : Mention}
    (hlast : chain.getLast? = some last) (hlen : chain.length ≤ depth) :
    (∃ z ∈ log, z.name = last.name ∧ z.result = look last) ∨ MayLose look names depth last.name := by
  have horigin : depth = 1 → ∀ z ∈ log, z.name = last.name → z.other = none := by
    intro hd z hz _
    have hz1 := h.depth_le hz
    exact (h.isFirst_of_depth hz (by omega)).2.1
  rcases h.kept hlook hnew (Nat.le_refl depth) hchain hlast hlen horigin with
    hfound | ⟨hd, hambiguous⟩ | ⟨pre, a, b, post, rfl, -, hdetour⟩
  · exact .inl hfound
  · exact .inr ⟨by exact_mod_cast hd, .inr hambiguous⟩
  · rw [List.length_append, List.length_cons, List.length_cons] at hlen
    exact .inr ⟨by omega, .inl hdetour⟩

/-- **What a walk finds it owes to one of its names**: every walk with as much depth that is asked for
that name finds it, too, unless it may lose it. -/
theorem Visits.found_beside (hs : r.Steady s) {doc : Document} {depth : Nat}
    {names : List (List Char)} {t : Walk σ} {log : List Visit}
    (h : r.Visits doc depth none names ⟨s, []⟩ log t) {x : Visit} (hx : x ∈ log) :
    ∃ name ∈ names, ∀ names' log' t', r.Visits doc depth none names' ⟨s, []⟩ log' t' → name ∈ names' →
      (∃ z ∈ log', z.name = x.name ∧ z.result = x.result) ∨
        MayLose (r.look doc s) names' depth x.name := by
  have hlook := (h.result_eq hs hs.agrees).1
  obtain ⟨chain, hchain, hlast, hlen⟩ := h.exists_mentions hlook hx
  obtain ⟨name, hname, hhead⟩ := hchain.first
  refine ⟨name, hname, fun names' log' t' h' hname' => ?_⟩
  have hlook' := (h'.result_eq hs hs.agrees).1
  rw [hlook x hx]
  exact h'.found_or_may_lose hlook' rfl ⟨⟨name, hname', hhead⟩, hchain.leads, hchain.nodup⟩ hlast hlen

/-! ### Types of a unit of code -/

variable {doc : Document} {depth : Int} {m : String}

/-- A type of a unit of code is a type of one of its names, unless that name alone may lose it. -/
theorem resolved_of_functionNames (hs : r.Steady s) {unit : CodeUnit}
    (hm : m ∈ r.functionNames doc unit depth s) :
    (∃ name ∈ customTypes unit.text.toList, m ∈ r.resolvedNames doc name depth s) ∨
      MayLose (r.look doc s) (customTypes unit.text.toList) depth m.toList := by
  obtain ⟨log, t, h⟩ := r.exists_visits doc depth.toNat none (customTypes unit.text.toList) ⟨s, []⟩
  obtain ⟨x, hx, hname, hsome⟩ := (mem_functionNames h).mp hm
  have hpos := (h.depth_le hx).1.trans_le (h.depth_le hx).2
  have hd : (depth.toNat : Int) = depth := Int.toNat_of_nonneg (by omega)
  obtain ⟨first, hfirst, hbeside⟩ := h.found_beside hs hx
  obtain ⟨log', t', h'⟩ := r.exists_visits doc depth.toNat none [first] ⟨s, []⟩
  rw [hname, hd] at hbeside
  rcases hbeside [first] log' t' h' List.mem_cons_self with ⟨z, hz, hzname, hresult⟩ | hlose
  · exact .inl ⟨first, hfirst, (mem_resolvedNames h').mpr ⟨z, hz, hzname, hresult ▸ hsome⟩⟩
  · refine .inr (hlose.mono fun name hname => ?_)
    rw [List.mem_singleton.mp hname]
    exact hfirst

/-- A type of one of the names of a unit of code is a type of the unit, unless the walk may lose it. -/
theorem functionNames_of_resolved (hs : r.Steady s) {unit : CodeUnit} {name : List Char}
    (hname : name ∈ customTypes unit.text.toList) (hm : m ∈ r.resolvedNames doc name depth s) :
    m ∈ r.functionNames doc unit depth s ∨
      MayLose (r.look doc s) (customTypes unit.text.toList) depth m.toList := by
  obtain ⟨log, t, h⟩ := r.exists_visits doc depth.toNat none [name] ⟨s, []⟩
  obtain ⟨x, hx, hxname, hsome⟩ := (mem_resolvedNames h).mp hm
  have hpos := (h.depth_le hx).1.trans_le (h.depth_le hx).2
  have hd : (depth.toNat : Int) = depth := Int.toNat_of_nonneg (by omega)
  obtain ⟨first, hfirst, hbeside⟩ := h.found_beside hs hx
  obtain ⟨log', t', h'⟩ := r.exists_visits doc depth.toNat none (customTypes unit.text.toList) ⟨s, []⟩
  rw [hxname, hd] at hbeside
  rw [List.mem_singleton.mp hfirst] at hbeside
  exact (hbeside _ log' t' h' hname).imp_left fun ⟨z, hz, hzname, hresult⟩ =>
    (mem_functionNames h').mpr ⟨z, hz, hzname, hresult ▸ hsome⟩

/-- **The types of a unit of code are the types of its names**, each resolved alone, and do not depend on
the order of the names, but for the types that a walk may lose. -/
theorem typesForFunction_names (hs : r.Steady s) (doc : Document) (unit : CodeUnit) (depth : Int)
    (m : String) :
    MayLose (r.look doc s) (customTypes unit.text.toList) depth m.toList ∨
      (m ∈ r.functionNames doc unit depth s ↔
        ∃ name ∈ customTypes unit.text.toList, m ∈ r.resolvedNames doc name depth s) ∧
      ∀ unit' : CodeUnit, (customTypes unit'.text.toList).Perm (customTypes unit.text.toList) →
        (m ∈ r.functionNames doc unit' depth s ↔ m ∈ r.functionNames doc unit depth s) := by
  by_cases hlose : MayLose (r.look doc s) (customTypes unit.text.toList) depth m.toList
  · exact .inl hlose
  have hunit : m ∈ r.functionNames doc unit depth s ↔
      ∃ name ∈ customTypes unit.text.toList, m ∈ r.resolvedNames doc name depth s := by
    constructor
    · exact fun hm => (resolved_of_functionNames hs hm).resolve_right hlose
    · exact fun ⟨name, hname, hm⟩ => (functionNames_of_resolved hs hname hm).resolve_right hlose
  refine .inr ⟨hunit, fun unit' hperm => ?_⟩
  have hlose' : ¬MayLose (r.look doc s) (customTypes unit'.text.toList) depth m.toList :=
    fun h => hlose (h.mono fun name hname => hperm.mem_iff.mp hname)
  rw [hunit]
  constructor
  · intro hm
    obtain ⟨name, hname, hm⟩ := (resolved_of_functionNames hs hm).resolve_right hlose'
    exact ⟨name, hperm.mem_iff.mp hname, hm⟩
  · rintro ⟨name, hname, hm⟩
    exact (functionNames_of_resolved hs (hperm.mem_iff.mpr hname) hm).resolve_right hlose'

/-! ### Types that are lost or gained -/

/-- Types in one file each: `Pre` leads into the long one of two ways from `Top` to `Mid`. -/
def crossing : AnswerTables :=
  .ofTypes [("/a", "Pre Top"), ("/b", "type Top Via Mid"), ("/c", "type Via Mid"), ("/d", "type Mid End"),
      ("/e", "type End"), ("/f", "type Pre Pro"), ("/g", "type Pro Via")]
    [("Top", "/b", .of 0 5 0 8), ("Via", "/c", .of 0 5 0 8), ("Mid", "/d", .of 0 5 0 8),
      ("End", "/e", .of 0 5 0 8), ("Pre", "/f", .of 0 5 0 8), ("Pro", "/g", .of 0 5 0 8)]

/-- A unit of code with a text. -/
def unitOf (text : String) : CodeUnit := ⟨"f", "a", "/a", text, .of 0 0 0 0, none⟩

/-- The names of the types that a resolver with prepared answers returns for a unit of code in `/a`. -/
def unitNamesFrom (t : AnswerTables) (text : String) (depth : Int) : List String :=
  AnswerTables.resolver.functionNames (t.document "/a") (unitOf text) depth ⟨t, []⟩

/-- What one walk for two names, one on the way from the other, does to a type. -/
theorem end_shared_or_lost :
    let look := AnswerTables.resolver.look (twoWays.document "/a") ⟨twoWays, []⟩
    let names := customTypes "Next Mid".toList
    AnswerTables.resolver.Steady ⟨twoWays, []⟩ ∧
      (MayLose look names 2 "End".toList ∨
        ("End" ∈ unitNamesFrom twoWays "Next Mid" 2 ↔
          ∃ name ∈ names, "End" ∈
            AnswerTables.resolver.resolvedNames (twoWays.document "/a") name 2 ⟨twoWays, []⟩) ∧
        ∀ unit' : CodeUnit, (customTypes unit'.text.toList).Perm names →
          ("End" ∈ AnswerTables.resolver.functionNames (twoWays.document "/a") unit' 2 ⟨twoWays, []⟩ ↔
            "End" ∈ unitNamesFrom twoWays "Next Mid" 2)) := by
  have hsteady : AnswerTables.resolver.Steady ⟨twoWays, []⟩ := .of_new twoWays.steady
  exact ⟨hsteady,
    typesForFunction_names hsteady (twoWays.document "/a") (unitOf "Next Mid") 2 "End"⟩

/-- One walk for two names can lose a type that one of them gives alone, and only for one order of the
names; it can find a type that neither gives alone; and it can lose a type by the document in which a name
is looked for. -/
theorem unitNamesFrom_ne_union :
    (AnswerTables.resolver.Steady ⟨twoWays, []⟩ ∧
      customTypes "Next Mid".toList = ["Next".toList, "Mid".toList] ∧
      "End" ∉ unitNamesFrom twoWays "Next Mid" 2 ∧ "End" ∈ namesFrom twoWays "Mid" 2 ∧
      "End" ∈ unitNamesFrom twoWays "Mid Next" 2) ∧
    (AnswerTables.resolver.Steady ⟨crossing, []⟩ ∧
      customTypes "Pre Top".toList = ["Pre".toList, "Top".toList] ∧
      "End" ∈ unitNamesFrom crossing "Pre Top" 3 ∧
      "End" ∉ namesFrom crossing "Pre" 3 ∧ "End" ∉ namesFrom crossing "Top" 3) ∧
    (AnswerTables.resolver.Steady ⟨twoFiles, []⟩ ∧
      customTypes "Via Next".toList = ["Via".toList, "Next".toList] ∧
      "End" ∉ unitNamesFrom twoFiles "Via Next" 2 ∧ "End" ∈ namesFrom twoFiles "Next" 2) := by
  refine ⟨⟨.of_new twoWays.steady, ?_, ?_, ?_, ?_⟩, ⟨.of_new crossing.steady, ?_, ?_, ?_, ?_⟩,
    ⟨.of_new twoFiles.steady, ?_, ?_, ?_⟩⟩ <;> decide +kernel

end Vicinity.Resolver
