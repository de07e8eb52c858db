import Vicinity.Symbol.Nesting
import Vicinity.Symbol.Outline

/-!
# Outlines of forests

The entries of an outline are the symbols of a forest in preorder, and each has the entry of its parent
before it. A forest put together from two has the entries of the one and after them those of the other,
which are counted on. Symbols may look alike, so each is named by the way of numbers that leads to it.

## What is proved

* `Symbol.entriesOfAll_append`, `Symbol.entriesOfAll_concat`: the entries of forests put together.
* `Symbol.map_flat_entriesOfAll`: the entries show the symbols in preorder.
* `Symbol.mem_nodes`, `Symbol.pairwise_nodesFrom`: preorder is the order of the ways to the symbols.
* `Symbol.hasParent_entriesOfAll`, `Symbol.listsNodes_entriesOfAll`: where the parent of an entry stands.
* `Outline.exists_symbol`, `Outline.exists_parent`: which symbols an entry and its parent show.
-/

namespace Vicinity

namespace Symbol

mutual

/-- A symbol and all symbols inside it, each before those inside it. -/
def selfAndInner : Symbol → List Symbol
  | ⟨name, kind, span, children⟩ => ⟨name, kind, span, children⟩ :: preorder children

/-- All symbols of a forest, each before those inside it. -/
def preorder : List Symbol → List Symbol
  | [] => []
  | s :: more => s.selfAndInner ++ preorder more

end

/-- A symbol by itself. -/
def flat (s : Symbol) : FlatSymbol := ⟨s.name, s.kind, s.span⟩

end Symbol

/-- What an entry shows of its symbol. -/
def OutlineEntry.flat (e : OutlineEntry) : FlatSymbol := ⟨e.name, e.kind, e.span⟩

namespace Symbol

/-- The entries of a forest that goes on after some of its symbols. -/
theorem entriesOfAll_append (parent : Option Nat) (base : Nat) (xs ys : List Symbol) :
    entriesOfAll parent base (xs ++ ys) =
      entriesOfAll parent base xs ++
        entriesOfAll parent (base + (entriesOfAll parent base xs).length) ys := by
  induction xs generalizing base with
  | nil => simp [entriesOfAll]
  | cons x xs ih =>
    simp only [List.cons_append, entriesOfAll, ih, List.length_append, List.append_assoc,
      Nat.add_assoc]

/-- The entries of a forest with one more symbol at its end. -/
theorem entriesOfAll_concat (parent : Option Nat) (base : Nat) (xs : List Symbol) (s : Symbol) :
    entriesOfAll parent base (xs ++ [s]) =
      entriesOfAll parent base xs ++
        s.entries parent (base + (entriesOfAll parent base xs).length) := by
  rw [entriesOfAll_append, entriesOfAll, entriesOfAll, List.append_nil]

mutual

theorem map_flat_entries (parent : Option Nat) (base : Nat) :
    (s : Symbol) → (s.entries parent base).map (·.flat) = s.selfAndInner.map flat
  | ⟨_, _, _, children⟩ => by
    rw [entries, selfAndInner, List.map_cons, List.map_cons,
      map_flat_entriesOfAll (some base) (base + 1) children]
    rfl

/-- **The entries show the symbols in preorder.** -/
theorem map_flat_entriesOfAll (parent : Option Nat) (base : Nat) :
    (xs : List Symbol) → (entriesOfAll parent base xs).map (·.flat) = (preorder xs).map flat
  | [] => by rw [entriesOfAll, preorder, List.map_nil, List.map_nil]
  | s :: more => by
    rw [entriesOfAll, preorder, List.map_append, List.map_append, map_flat_entries parent base s,
      map_flat_entriesOfAll parent _ more]

end

theorem length_entries (parent : Option Nat) (base : Nat) (s : Symbol) :
    (s.entries parent base).length = s.selfAndInner.length := by
  simpa using congrArg List.length (map_flat_entries parent base s)

/-! ### Ways -/

/-- The symbol to which a way leads from a symbol: each number counts among the children of the symbol
reached so far. -/
def inner? : Symbol → List Nat → Option Symbol
  | s, [] => some s
  | s, i :: way => s.children[i]?.bind (·.inner? way)

/-- The symbol of a forest to which a way leads: its first number counts among the roots. The empty way
leads to none. -/
def at? (symbols : List Symbol) : List Nat → Option Symbol
  | [] => none
  | i :: way => symbols[i]?.bind (·.inner? way)

mutual

/-- A symbol that is number `i` among its siblings and all symbols inside it, in preorder and with the
ways to them. -/
def ownNodes (i : Nat) : Symbol → List (List Nat × Symbol)
  | ⟨name, kind, span, children⟩ =>
    ([i], ⟨name, kind, span, children⟩) :: (nodesFrom 0 children).map (Prod.map (i :: ·) id)

/-- All symbols of a forest in preorder, with the ways to them if the roots are counted from `i` on. -/
def nodesFrom (i : Nat) : List Symbol → List (List Nat × Symbol)
  | [] => []
  | s :: more => s.ownNodes i ++ nodesFrom (i + 1) more

end

mutual

theorem map_snd_ownNodes (i : Nat) : (s : Symbol) → (s.ownNodes i).map (·.2) = s.selfAndInner
  | ⟨_, _, _, children⟩ => by
    rw [ownNodes, selfAndInner, List.map_cons, List.map_map, ← map_snd_nodesFrom 0 children]
    rfl

theorem map_snd_nodesFrom (i : Nat) : (xs : List Symbol) → (nodesFrom i xs).map (·.2) = preorder xs
  | [] => by rw [nodesFrom, preorder, List.map_nil]
  | s :: more => by
    rw [nodesFrom, preorder, List.map_append, map_snd_ownNodes i s, map_snd_nodesFrom (i + 1) more]

end

mutual

theorem mem_ownNodes {i : Nat} {way : List Nat} {t : Symbol} : (s : Symbol) →
    ((way, t) ∈ s.ownNodes i ↔ ∃ rest, way = i :: rest ∧ s.inner? rest = some t)
  | ⟨name, kind, span, children⟩ => by
    rw [ownNodes, List.mem_cons, List.mem_map]
    constructor
    · rintro (heq | ⟨⟨inner, u⟩, hinner, heq⟩)
      · cases heq
        exact ⟨[], rfl, rfl⟩
      · cases heq
        obtain ⟨j, rest, c, rfl, hc, ht⟩ := (mem_nodesFrom children).mp hinner
        refine ⟨j :: rest, by rw [Nat.zero_add], ?_⟩
        rw [inner?, hc, Option.bind_some, ht]
        rfl
    · rintro ⟨_ | ⟨j, rest⟩, rfl, ht⟩
      · cases ht
        exact .inl rfl
      · obtain ⟨c, hc, ht⟩ := Option.bind_eq_some_iff.mp ht
        exact .inr ⟨(j :: rest, t), (mem_nodesFrom children).mpr
          ⟨j, rest, c, by rw [Nat.zero_add], hc, ht⟩, rfl⟩

theorem mem_nodesFrom {i : Nat} {way : List Nat} {t : Symbol} : (xs : List Symbol) →
    ((way, t) ∈ nodesFrom i xs ↔
      ∃ j rest s, way = (i + j) :: rest ∧ xs[j]? = some s ∧ s.inner? rest = some t)
  | [] => by simp [nodesFrom]
  | s :: more => by
    rw [nodesFrom, List.mem_append, mem_ownNodes s, mem_nodesFrom more]
    constructor
    · rintro (⟨rest, rfl, ht⟩ | ⟨j, rest, c, rfl, hc, ht⟩)
      · exact ⟨0, rest, s, rfl, rfl, ht⟩
      · exact ⟨j + 1, rest, c, by rw [Nat.add_assoc, Nat.add_comm 1], hc, ht⟩
    · rintro ⟨_ | j, rest, c, rfl, hc, ht⟩
      · cases hc
        exact .inl ⟨rest, rfl, ht⟩
      · exact .inr ⟨j, rest, c, by rw [Nat.add_assoc, Nat.add_comm 1], hc, ht⟩

end

/-- The number with which a way begins. -/
theorem exists_cons_of_mem_nodesFrom {i : Nat} {xs : List Symbol} {n : List Nat × Symbol}
    (h : n ∈ nodesFrom i xs) : ∃ j rest, i ≤ j ∧ n.1 = j :: rest := by
  obtain ⟨j, rest, -, hway, -⟩ := (mem_nodesFrom xs).mp h
  exact ⟨i + j, rest, Nat.le_add_right i j, hway⟩

theorem mem_nodes {symbols : List Symbol} {way : List Nat} {s : Symbol} :
    (way, s) ∈ nodesFrom 0 symbols ↔ at? symbols way = some s := by
  rw [mem_nodesFrom]
  constructor
  · rintro ⟨j, rest, c, rfl, hc, hs⟩
    rw [Nat.zero_add, at?, hc, Option.bind_some, hs]
  · intro h
    cases way with
    | nil => cases h
    | cons j rest =>
      obtain ⟨c, hc, hs⟩ := Option.bind_eq_some_iff.mp h
      exact ⟨j, rest, c, by rw [Nat.zero_add], hc, hs⟩

mutual

theorem pairwise_ownNodes (i : Nat) : (s : Symbol) →
    (s.ownNodes i).Pairwise fun a b => a.1.Lex (· < ·) b.1
  | ⟨_, _, _, children⟩ => by
    rw [ownNodes, List.pairwise_cons, List.pairwise_map]
    refine ⟨fun n hn => ?_, (pairwise_nodesFrom 0 children).imp fun h => .cons h⟩
    obtain ⟨m, hm, rfl⟩ := List.mem_map.mp hn
    obtain ⟨j, rest, -, hway⟩ := exists_cons_of_mem_nodesFrom hm
    rw [Prod.map_fst, hway]
    exact .cons .nil

/-- **The ways to the symbols in preorder are in order**: a way comes before those that go on from it,
and before those that turn to a later sibling. -/
theorem pairwise_nodesFrom (i : Nat) : (xs : List Symbol) →
    (nodesFrom i xs).Pairwise fun a b => a.1.Lex (· < ·) b.1
  | [] => by
    rw [nodesFrom]
    exact .nil
  | s :: more => by
    rw [nodesFrom, List.pairwise_append]
    refine ⟨pairwise_ownNodes i s, pairwise_nodesFrom (i + 1) more, fun a ha b hb => ?_⟩
    obtain ⟨rest, hway, -⟩ := (mem_ownNodes s).mp ha
    obtain ⟨j, rest', hj, hway'⟩ := exists_cons_of_mem_nodesFrom hb
    rw [hway, hway']
    exact .rel hj

end

/-! ### Parents -/

/-- The parent that an entry gives: the symbol whose entry it is comes from the given list, and the
parent is the given one; or it is a child of a symbol before it in preorder, to which all but the last
number of its way lead. -/
def HasParent (nodes : List (List Nat × Symbol)) (tops : List Symbol) (parent : Option Nat)
    (base k : Nat) (e : OutlineEntry) (way : List Nat) (s : Symbol) : Prop :=
  e.parent = parent ∧ way.dropLast = [] ∧ s ∈ tops ∨
    ∃ j q, j < k ∧ nodes[j]? = some (way.dropLast, q) ∧ e.parent = some (base + j) ∧ s ∈ q.children

theorem length_ownNodes (parent : Option Nat) (base i : Nat) (s : Symbol) :
    (s.ownNodes i).length = (s.entries parent base).length := by
  rw [length_entries, ← map_snd_ownNodes i, List.length_map]

mutual

theorem hasParent_entries (parent : Option Nat) (base i : Nat) : (s : Symbol) → ∀ {k e way t},
    (s.entries parent base)[k]? = some e → (s.ownNodes i)[k]? = some (way, t) →
    HasParent (s.ownNodes i) [s] parent base k e way t
  | ⟨name, kind, span, children⟩, k, e, way, t, he, ht => by
    rw [entries] at he
    rw [ownNodes] at ht ⊢
    cases k with
    | zero =>
      cases he
      cases ht
      exact .inl ⟨rfl, rfl, List.mem_cons_self⟩
    | succ k =>
      rw [List.getElem?_cons_succ, List.getElem?_map] at ht
      obtain ⟨⟨inner, u⟩, hu, heq⟩ := Option.map_eq_some_iff.mp ht
      cases heq
      obtain ⟨j, rest, -, hinner⟩ := exists_cons_of_mem_nodesFrom (List.mem_of_getElem? hu)
      have hdrop : (i :: inner).dropLast = i :: inner.dropLast := by
        rw [show inner = j :: rest from hinner]
        rfl
      rcases hasParent_entriesOfAll (some base) (base + 1) 0 children he hu with
        ⟨hparent, hroot, htop⟩ | ⟨j, q, hj, hq, hparent, hchild⟩
      · refine .inr ⟨0, ⟨name, kind, span, children⟩, Nat.succ_pos k, ?_, hparent, htop⟩
        rw [hdrop, hroot]
        rfl
      · refine .inr ⟨j + 1, q, Nat.succ_lt_succ hj, ?_, ?_, hchild⟩
        · rw [hdrop, List.getElem?_cons_succ, List.getElem?_map, hq]
          rfl
        · rw [hparent, Nat.add_assoc, Nat.add_comm 1]

/-- **Where the parent of an entry stands.** -/
theorem hasParent_entriesOfAll (parent : Option Nat) (base i : Nat) : (xs : List Symbol) →
    ∀ {k e way t}, (entriesOfAll parent base xs)[k]? = some e →
      (nodesFrom i xs)[k]? = some (way, t) → HasParent (nodesFrom i xs) xs parent base k e way t
  | [], k, e, way, t, he, _ => by
    rw [entriesOfAll] at he
    cases he
  | s :: more, k, e, way, t, he, ht => by
    have hlength := length_ownNodes parent base i s
    rw [entriesOfAll] at he
    rw [nodesFrom] at ht ⊢
    by_cases hk : k < (s.entries parent base).length
    · rw [List.getElem?_append_left hk] at he
      rw [List.getElem?_append_left (hlength ▸ hk)] at ht
      rcases hasParent_entries parent base i s he ht with
        ⟨hparent, hroot, htop⟩ | ⟨j, q, hj, hq, hparent, hchild⟩
      · exact .inl ⟨hparent, hroot, List.mem_cons.mpr (.inl (List.mem_singleton.mp htop))⟩
      · exact .inr ⟨j, q, hj, by rw [List.getElem?_append_left (by omega), hq], hparent, hchild⟩
    · rw [List.getElem?_append_right (by omega)] at he ht
      rw [hlength] at ht
      rcases hasParent_entriesOfAll parent _ (i + 1) more he ht with
        ⟨hparent, hroot, htop⟩ | ⟨j, q, hj, hq, hparent, hchild⟩
      · exact .inl ⟨hparent, hroot, List.mem_cons_of_mem s htop⟩
      · refine .inr ⟨(s.entries parent base).length + j, q, by omega, ?_, ?_, hchild⟩
        · rw [List.getElem?_append_right (by omega), hlength, Nat.add_sub_cancel_left, hq]
        · rw [hparent, Nat.add_assoc]

end

/-- Entries that list nodes: each shows its symbol, and its parent is the entry of the symbol to which the
way leads without its last number. -/
structure ListsNodes (nodes : List (List Nat × Symbol)) (entries : List OutlineEntry) : Prop where
  shown : entries.map (·.flat) = nodes.map (·.2.flat)
  root_iff : ∀ (k : Nat) (e : OutlineEntry) (way : List Nat) (s : Symbol), entries[k]? = some e →
    nodes[k]? = some (way, s) → (e.parent = none ↔ way.length = 1)
  parent : ∀ (k : Nat) (e : OutlineEntry) (way : List Nat) (s : Symbol), entries[k]? = some e →
    nodes[k]? = some (way, s) → ∀ i, e.parent = some i →
      i < k ∧ ∃ q, nodes[i]? = some (way.dropLast, q) ∧ s ∈ q.children

/-- **The entries of a forest list its nodes.** -/
theorem listsNodes_entriesOfAll (symbols : List Symbol) :
    ListsNodes (nodesFrom 0 symbols) (entriesOfAll none 0 symbols) := by
  constructor
  case shown =>
    rw [map_flat_entriesOfAll, ← map_snd_nodesFrom 0, List.map_map]
    rfl
  case root_iff =>
    intro k e way s he hnode
    obtain ⟨i, rest, -, hway⟩ := exists_cons_of_mem_nodesFrom (List.mem_of_getElem? hnode)
    have hlength : way.length = way.dropLast.length + 1 := by
      rw [show way = i :: rest from hway, List.length_dropLast, List.length_cons, Nat.add_sub_cancel]
    rcases hasParent_entriesOfAll none 0 0 symbols he hnode with
      ⟨hparent, hroot, -⟩ | ⟨j, q, -, hq, hparent, -⟩
    · rw [hparent, hlength, hroot]
      exact ⟨fun _ => rfl, fun _ => rfl⟩
    · -- a way to the parent is not empty
      obtain ⟨i', rest', -, hway'⟩ := exists_cons_of_mem_nodesFrom (List.mem_of_getElem? hq)
      rw [hparent, hlength, show way.dropLast = i' :: rest' from hway', List.length_cons]
      simp
  case parent =>
    intro k e way s he hnode i hi
    rcases hasParent_entriesOfAll none 0 0 symbols he hnode with
      ⟨hparent, -⟩ | ⟨j, q, hj, hq, hparent, hchild⟩
    · cases hparent.symm.trans hi
    · obtain rfl : 0 + j = i := Option.some.inj (hparent.symm.trans hi)
      rw [Nat.zero_add]
      exact ⟨hj, q, hq, hchild⟩

end Symbol

namespace Outline

variable {symbols : List Symbol} {k : Nat} {e : OutlineEntry}

/-- An entry shows the symbol that has the same place in preorder. -/
theorem map_flat_getElem? (symbols : List Symbol) (k : Nat) :
    (ofSymbols symbols).entries[k]?.map (·.flat) = (Symbol.preorder symbols)[k]?.map Symbol.flat := by
  rw [← List.getElem?_map, ← List.getElem?_map]
  exact congrArg (·[k]?) (Symbol.map_flat_entriesOfAll none 0 symbols)

theorem exists_symbol (he : (ofSymbols symbols).entries[k]? = some e) :
    ∃ s, (Symbol.preorder symbols)[k]? = some s ∧ s.flat = e.flat := by
  have hflat := map_flat_getElem? symbols k
  rw [he] at hflat
  exact Option.map_eq_some_iff.mp hflat.symm

/-- An entry shows a symbol that has the same place in preorder, and a way leads to this. -/
theorem exists_node (he : (ofSymbols symbols).entries[k]? = some e) :
    ∃ way s, (Symbol.nodesFrom 0 symbols)[k]? = some (way, s) ∧ s.flat = e.flat := by
  obtain ⟨s, hs, hflat⟩ := exists_symbol he
  rw [← Symbol.map_snd_nodesFrom 0, List.getElem?_map] at hs
  obtain ⟨⟨way, t⟩, hnode, rfl⟩ := Option.map_eq_some_iff.mp hs
  exact ⟨way, t, hnode, hflat⟩

/-- An entry that gives a parent shows a child of the symbol there, which comes before it. -/
theorem exists_parent (he : (ofSymbols symbols).entries[k]? = some e) {i : Nat}
    (hparent : e.parent = some i) :
    i < k ∧ ∃ f, (ofSymbols symbols).entries[i]? = some f ∧
      ∃ q ∈ Symbol.preorder symbols, ∃ s ∈ q.children, q.flat = f.flat ∧ s.flat = e.flat := by
  obtain ⟨way, s, hs, hflat⟩ := exists_node he
  obtain ⟨hi, q, hq, hchild⟩ :=
    (Symbol.listsNodes_entriesOfAll symbols).parent k e way s he hs i hparent
  have hpreorder : (Symbol.preorder symbols)[i]? = some q := by
    rw [← Symbol.map_snd_nodesFrom 0, List.getElem?_map, hq]
    rfl
  have hshown := map_flat_getElem? symbols i
  rw [hpreorder] at hshown
  obtain ⟨f, hf, hshown⟩ := Option.map_eq_some_iff.mp hshown
  exact ⟨hi, f, hf, q, List.mem_of_getElem? hpreorder, s, hchild, hshown.symm, hflat⟩

/-- The indexes of the parent of an entry, of the parent's parent, and so on. -/
inductive Ancestor (outline : Outline) : Nat → Nat → Prop where
  | parent {i k : Nat} {e : OutlineEntry} (he : outline.entries[k]? = some e)
      (hparent : e.parent = some i) : Ancestor outline i k
  | above {i j k : Nat} {e : OutlineEntry} (he : outline.entries[k]? = some e)
      (hparent : e.parent = some j) (h : Ancestor outline i j) : Ancestor outline i k

end Outline

end Vicinity
