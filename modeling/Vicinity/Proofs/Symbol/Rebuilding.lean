import Vicinity.Proofs.Symbol.Outlines
import Mathlib.Data.List.Lex
import Mathlib.Data.List.Sort

/-!
# Forests from their outlines

An outline leaves out the children of a symbol and keeps only the index of its parent. Nothing is lost:
if the entries are gone through from the last to the first, each finds the symbols inside it already put
together, and those that wait for its index are its children, in order.

## What is proved

* `InPreorder.unique`, `inPreorder_nodesFrom`: there is one way to list a forest in preorder.
* `waitingFrom_entriesOfAll`: when the entries of siblings have come, the siblings wait for their parent.
* `Outline.entries_lossless`: a forest is put together again from its entries.
-/

namespace Vicinity

/-! ### Preorder -/

/-- The symbols of a forest in preorder, each with the way to it. -/
structure InPreorder (symbols : List Symbol) (nodes : List (List Nat × Symbol)) : Prop where
  mem_iff : ∀ way s, (way, s) ∈ nodes ↔ Symbol.at? symbols way = some s
  /-- A symbol comes before those inside it, and they come before its next sibling. -/
  sorted : nodes.Pairwise fun a b => a.1.Lex (· < ·) b.1

theorem inPreorder_nodesFrom (symbols : List Symbol) :
    InPreorder symbols (Symbol.nodesFrom 0 symbols) :=
  ⟨fun _ _ => Symbol.mem_nodes, Symbol.pairwise_nodesFrom 0 symbols⟩

/-- **There is one way to list a forest in preorder.** -/
theorem InPreorder.unique {symbols : List Symbol} {xs ys : List (List Nat × Symbol)}
    (hxs : InPreorder symbols xs) (hys : InPreorder symbols ys) : xs = ys := by
  have : Std.Asymm fun a b : List Nat × Symbol => a.1.Lex (· < ·) b.1 :=
    ⟨fun a b => Std.Asymm.asymm (r := List.Lex (· < ·)) a.1 b.1⟩
  refine hxs.sorted.eq_of_mem_iff hys.sorted fun ⟨way, s⟩ => ?_
  rw [hxs.mem_iff, hys.mem_iff]

/-! ### Putting a forest together -/

/-- A symbol put together from entries, and the index of the entry that it waits for. -/
structure Waiting where
  parent : Option Nat
  symbol : Symbol

/-- The symbols that wait for a parent. -/
def childrenOf (parent : Option Nat) (waiting : List Waiting) : List Symbol :=
  (waiting.filter (·.parent = parent)).map (·.symbol)

/-- The entry at an index takes the symbols that wait for it as children, and waits itself. -/
def OutlineEntry.adopt (e : OutlineEntry) (index : Nat) (waiting : List Waiting) : List Waiting :=
  ⟨e.parent, e.name, e.kind, e.span, childrenOf (some index) waiting⟩ ::
    waiting.filter (·.parent ≠ some index)

/-- What waits when all entries have come, the last one first; the first of them has the given index. -/
def waitingFrom (index : Nat) : List OutlineEntry → List Waiting
  | [] => []
  | e :: more => e.adopt index (waitingFrom (index + 1) more)

/-- The forest of some entries, from what they show and from their parents alone. -/
def Symbol.ofEntries (entries : List OutlineEntry) : List Symbol :=
  childrenOf none (waitingFrom 0 entries)

theorem childrenOf_append {parent : Option Nat} {others : List Waiting} (own : List Symbol)
    (h : ∀ w ∈ others, w.parent ≠ parent) :
    childrenOf parent (own.map (Waiting.mk parent) ++ others) = own := by
  have hothers : others.filter (·.parent = parent) = [] := by
    rw [List.filter_eq_nil_iff]
    exact fun w hw heq => h w hw (of_decide_eq_true heq)
  have hown : (own.map (Waiting.mk parent)).filter (·.parent = parent) = own.map (Waiting.mk parent) := by
    rw [List.filter_eq_self]
    intro w hw
    obtain ⟨s, -, rfl⟩ := List.mem_map.mp hw
    exact decide_eq_true rfl
  rw [childrenOf, List.filter_append, hothers, hown, List.append_nil, List.map_map]
  exact List.map_id own

theorem OutlineEntry.adopt_append {index : Nat} {others : List Waiting} (e : OutlineEntry)
    (own : List Symbol) (h : ∀ w ∈ others, w.parent ≠ some index) :
    e.adopt index (own.map (Waiting.mk (some index)) ++ others) =
      ⟨e.parent, e.name, e.kind, e.span, own⟩ :: others := by
  have hothers : others.filter (·.parent ≠ some index) = others := by
    rw [List.filter_eq_self]
    exact fun w hw => decide_eq_true (h w hw)
  have hown : (own.map (Waiting.mk (some index))).filter (·.parent ≠ some index) = [] := by
    rw [List.filter_eq_nil_iff]
    intro w hw
    obtain ⟨s, -, rfl⟩ := List.mem_map.mp hw
    simp
  rw [adopt, childrenOf_append own h, List.filter_append, hown, hothers, List.nil_append]

/-- A parent whose entry comes before an index, or none. -/
def Precedes (parent : Option Nat) (index : Nat) : Prop := ∀ i ∈ parent, i < index

theorem Precedes.mono {parent : Option Nat} {index index' : Nat} (h : Precedes parent index)
    (hle : index ≤ index') : Precedes parent index' := fun i hi => Nat.lt_of_lt_of_le (h i hi) hle

theorem Precedes.ne {parent : Option Nat} {index : Nat} (h : Precedes parent index) :
    parent ≠ some index := fun heq => Nat.lt_irrefl index (h index heq)

mutual

/-- When its entries have come, a symbol waits for its parent. What the later entries left waiting waits
for earlier ones, so none of it is taken for a child. -/
theorem waitingFrom_entries {parent : Option Nat} {base : Nat} {later : List OutlineEntry} :
    (s : Symbol) →
    (∀ w ∈ waitingFrom (base + (s.entries parent base).length) later, Precedes w.parent base) →
    waitingFrom base (s.entries parent base ++ later) =
      ⟨parent, s⟩ :: waitingFrom (base + (s.entries parent base).length) later
  | ⟨name, kind, span, children⟩, hlater => by
    have hindex : base + (Symbol.entries parent base ⟨name, kind, span, children⟩).length =
        base + 1 + (Symbol.entriesOfAll (some base) (base + 1) children).length := by
      rw [Symbol.entries, List.length_cons]
      omega
    have hself : Precedes (some base) (base + 1) := by
      intro i hi
      cases hi
      exact Nat.lt_succ_self base
    rw [hindex] at hlater ⊢
    rw [Symbol.entries, List.cons_append, waitingFrom, waitingFrom_entriesOfAll hself children fun w hw =>
      (hlater w hw).mono (Nat.le_succ base)]
    exact OutlineEntry.adopt_append _ children fun w hw => (hlater w hw).ne

/-- **When the entries of siblings have come, the siblings wait for their parent**, in order and before
what the later entries left waiting. -/
theorem waitingFrom_entriesOfAll {parent : Option Nat} {base : Nat} {later : List OutlineEntry}
    (hparent : Precedes parent base) : (xs : List Symbol) →
    (∀ w ∈ waitingFrom (base + (Symbol.entriesOfAll parent base xs).length) later,
      Precedes w.parent base) →
    waitingFrom base (Symbol.entriesOfAll parent base xs ++ later) =
      xs.map (Waiting.mk parent) ++
        waitingFrom (base + (Symbol.entriesOfAll parent base xs).length) later
  | [], _ => by
    rw [Symbol.entriesOfAll, List.nil_append, List.map_nil, List.nil_append]
    rfl
  | s :: more, hlater => by
    have hle := Nat.le_add_right base (s.entries parent base).length
    rw [Symbol.entriesOfAll, List.length_append, ← Nat.add_assoc] at hlater ⊢
    have hmore := waitingFrom_entriesOfAll (hparent.mono hle) more fun w hw => (hlater w hw).mono hle
    rw [List.append_assoc, waitingFrom_entries s, hmore]
    · rfl
    · rw [hmore]
      intro w hw
      rcases List.mem_append.mp hw with hsibling | hwaiting
      · obtain ⟨t, -, rfl⟩ := List.mem_map.mp hsibling
        exact hparent
      · exact hlater w hwaiting

end

/-- **A forest is put together again from its entries.** -/
theorem Symbol.ofEntries_entriesOfAll (symbols : List Symbol) :
    ofEntries (entriesOfAll none 0 symbols) = symbols := by
  have hnone : Precedes none 0 := by
    intro i hi
    cases hi
  have hlater : ∀ index, ∀ w ∈ waitingFrom index [], Precedes w.parent 0 := by
    intro index w hw
    cases hw
  have hwaiting := waitingFrom_entriesOfAll hnone symbols (hlater _)
  rw [List.append_nil] at hwaiting
  rw [ofEntries, hwaiting]
  refine childrenOf_append symbols fun w hw => ?_
  cases hw

namespace Outline

/-- **An outline loses nothing.** Its entries list the symbols of the forest in preorder. A parent comes
before its children: it is the entry of the symbol that they are in, and there is none exactly for roots.
From its entries the forest is put together again, so different forests have different entries. -/
theorem entries_lossless (symbols : List Symbol) (id : Nat) :
    let entries := (ofSymbols symbols id).entries
    (∃ nodes, (∀ l, InPreorder symbols l ↔ l = nodes) ∧ Symbol.ListsNodes nodes entries) ∧
      Symbol.ofEntries entries = symbols ∧
      ∀ others otherId, (ofSymbols others otherId).entries = entries ↔ others = symbols := by
  intro entries
  have hrebuilt : Symbol.ofEntries entries = symbols := Symbol.ofEntries_entriesOfAll symbols
  have hordered := inPreorder_nodesFrom symbols
  refine ⟨⟨_, fun l => ⟨fun hl => hl.unique hordered, fun hl => hl ▸ hordered⟩,
    Symbol.listsNodes_entriesOfAll symbols⟩, hrebuilt, fun others otherId => ⟨fun heq => ?_, fun heq => ?_⟩⟩
  · calc others = Symbol.ofEntries (ofSymbols others otherId).entries :=
          (Symbol.ofEntries_entriesOfAll others).symm
      _ = Symbol.ofEntries entries := by rw [heq]
      _ = symbols := hrebuilt
  · rw [heq]
    rfl

/-- Siblings that look alike are told apart by the parents of what is inside them. -/
example :
    (ofSymbols [⟨"a", .class, .of 0 0 9 0, [⟨"b", .method, .of 1 0 2 0, []⟩]⟩,
      ⟨"a", .class, .of 0 0 9 0, [⟨"b", .method, .of 1 0 2 0, []⟩, ⟨"b", .method, .of 1 0 2 0, []⟩]⟩]).entries.map
        (fun e => (e.name, e.parent)) =
      [("a", none), ("b", some 0), ("a", none), ("b", some 2), ("b", some 2)] := rfl

end Outline

end Vicinity
