import Vicinity.Document
import Vicinity.Path

/-!
# Units of code

What is cut out of documents: units of code, usually functions, and declarations of types. Both
remember the location of their declaration, which tells two of them apart.
-/

namespace Vicinity

/-- A named piece of a document. -/
structure CodeUnit where
  name : String
  /-- The document's path as seen from the workspace root. -/
  filename : String
  path : String
  text : String
  span : Span
  /-- The location of the declaration. -/
  ref : Option Location := none
  deriving DecidableEq, Repr

/-- The declaration of a type. -/
structure TypeEntry where
  name : String
  /-- The document's path as seen from the workspace root. -/
  filename : String
  text : String
  path : String := ""
  /-- The location of the declaration. -/
  ref : Option Location := none
  deriving DecidableEq, Repr

/-- The unit of code at a span of a document. -/
def Document.unitAt (doc : Document) (name : String) (span : Span) (root : Option String) :
    CodeUnit :=
  { name, filename := relativePath doc.path root, path := doc.path, text := doc.textIn span, span,
    ref := some ⟨doc.path, span⟩ }

/-- Keeps the first of the elements that have the same key. -/
def firstByKey {α κ : Type} [DecidableEq κ] (key : α → κ) (xs : List α) : List α := go xs []
where
  /-- Goes on after the given keys. -/
  go : List α → List κ → List α
    | [], _ => []
    | x :: more, seen =>
      if key x ∈ seen then go more seen else x :: go more (key x :: seen)

theorem firstByKey_go_sublist {α κ : Type} [DecidableEq κ] (key : α → κ) (xs : List α)
    (seen : List κ) : (firstByKey.go key xs seen).Sublist xs := by
  induction xs generalizing seen with
  | nil => exact .slnil
  | cons x xs ih =>
    unfold firstByKey.go
    split
    · exact (ih seen).cons x
    · exact (ih (key x :: seen)).cons_cons x

/-- The elements that are kept stay in order. -/
theorem firstByKey_sublist {α κ : Type} [DecidableEq κ] (key : α → κ) (xs : List α) :
    (firstByKey key xs).Sublist xs := firstByKey_go_sublist key xs []

theorem exists_mem_firstByKey_go {α κ : Type} [DecidableEq κ] {key : α → κ} {xs : List α} {x : α}
    (h : x ∈ xs) (seen : List κ) :
    key x ∈ seen ∨ ∃ y ∈ firstByKey.go key xs seen, key y = key x := by
  induction xs generalizing seen with
  | nil => cases h
  | cons z xs ih =>
    unfold firstByKey.go
    split
    · rename_i hz
      rcases h with _ | ⟨_, h⟩
      · exact .inl hz
      · exact ih h seen
    · rcases h with _ | ⟨_, h⟩
      · exact .inr ⟨x, List.mem_cons_self, rfl⟩
      · rcases ih h (key z :: seen) with hseen | ⟨y, hy, hkey⟩
        · rcases List.mem_cons.mp hseen with hz | hseen
          · exact .inr ⟨z, List.mem_cons_self, hz.symm⟩
          · exact .inl hseen
        · exact .inr ⟨y, List.mem_cons_of_mem z hy, hkey⟩

/-- An element with the same key is kept for each element. -/
theorem exists_mem_firstByKey {α κ : Type} [DecidableEq κ] {key : α → κ} {xs : List α} {x : α}
    (h : x ∈ xs) : ∃ y ∈ firstByKey key xs, key y = key x :=
  (exists_mem_firstByKey_go h []).resolve_left List.not_mem_nil

section FirstByKey

variable {α κ : Type} [DecidableEq κ] {key : α → κ}

/-- Keys seen before only take elements away. -/
theorem firstByKey_go_eq_filter (key : α → κ) (xs : List α) (seen : List κ) :
    firstByKey.go key xs seen = (firstByKey key xs).filter (key · ∉ seen) := by
  unfold firstByKey
  induction xs generalizing seen with
  | nil => rfl
  | cons x xs ih =>
    have hfirst : firstByKey.go key (x :: xs) [] = x :: firstByKey.go key xs [key x] := by
      simp [firstByKey.go]
    by_cases hx : key x ∈ seen
    · have hgo : firstByKey.go key (x :: xs) seen = firstByKey.go key xs seen := by
        simp [firstByKey.go, hx]
      rw [hgo, hfirst, List.filter_cons_of_neg (by simpa using hx), ih [key x], ih seen,
        List.filter_filter]
      refine List.filter_congr fun y _ => ?_
      by_cases hy : key y = key x <;> simp [hy, hx]
    · have hgo : firstByKey.go key (x :: xs) seen = x :: firstByKey.go key xs (key x :: seen) := by
        simp [firstByKey.go, hx]
      rw [hgo, hfirst, List.filter_cons_of_pos (by simpa using hx), ih [key x], ih (key x :: seen),
        List.filter_filter]
      refine congrArg (x :: ·) (List.filter_congr fun y _ => ?_)
      simp [Bool.and_comm]

/-- The first element is kept, and of the others those with another key. -/
theorem firstByKey_cons (key : α → κ) (x : α) (xs : List α) :
    firstByKey key (x :: xs) = x :: (firstByKey key xs).filter (key · ≠ key x) := by
  have h := firstByKey_go_eq_filter key xs [key x]
  simp only [List.mem_singleton] at h
  rw [← h]
  simp [firstByKey, firstByKey.go]

@[simp] theorem firstByKey_nil (key : α → κ) : firstByKey key [] = [] := rfl

/-- The keys of the elements that are kept differ. -/
theorem nodup_firstByKey (key : α → κ) (xs : List α) : ((firstByKey key xs).map key).Nodup := by
  induction xs with
  | nil => exact .nil
  | cons x xs ih =>
    rw [firstByKey_cons, List.map_cons, List.nodup_cons]
    refine ⟨fun h => ?_, ih.sublist (List.filter_sublist.map key)⟩
    obtain ⟨y, hy, hkey⟩ := List.mem_map.mp h
    simpa [hkey] using (List.mem_filter.mp hy).2

/-- The keys are those of all elements. -/
theorem mem_map_firstByKey {k : κ} {xs : List α} :
    k ∈ (firstByKey key xs).map key ↔ k ∈ xs.map key := by
  constructor
  · exact fun h => ((firstByKey_sublist key xs).map key).subset h
  · intro h
    obtain ⟨x, hx, rfl⟩ := List.mem_map.mp h
    have hkept : ∃ y ∈ firstByKey key xs, key y = key x := exists_mem_firstByKey hx
    obtain ⟨y, hy, hkey⟩ := hkept
    exact hkey ▸ List.mem_map_of_mem hy

/-- Of a second list the elements with a new key are kept. -/
theorem firstByKey_append (key : α → κ) (xs ys : List α) :
    firstByKey key (xs ++ ys) =
      firstByKey key xs ++ (firstByKey key ys).filter (key · ∉ xs.map key) := by
  induction xs with
  | nil => exact (List.filter_eq_self.mpr (by simp)).symm
  | cons x xs ih =>
    rw [List.cons_append, firstByKey_cons, ih, firstByKey_cons, List.filter_append,
      List.filter_filter, List.cons_append]
    congr 2
    exact List.filter_congr fun y _ => by simp

/-- Every element is kept if each key belongs to one element only. -/
theorem mem_firstByKey_of_injective {xs : List α}
    (h : ∀ x ∈ xs, ∀ y ∈ xs, key x = key y → x = y) {x : α} : x ∈ firstByKey key xs ↔ x ∈ xs := by
  constructor
  · exact fun hx => (firstByKey_sublist key xs).subset hx
  · intro hx
    have hkept : ∃ y ∈ firstByKey key xs, key y = key x := exists_mem_firstByKey hx
    obtain ⟨y, hy, hkey⟩ := hkept
    rwa [h x hx y ((firstByKey_sublist key xs).subset hy) hkey.symm]

theorem firstByKey_of_nodup {xs : List α} (h : (xs.map key).Nodup) : firstByKey key xs = xs := by
  induction xs with
  | nil => rfl
  | cons x xs ih =>
    obtain ⟨hx, hxs⟩ := List.nodup_cons.mp h
    rw [firstByKey_cons, ih hxs, List.filter_eq_self.mpr fun y hy => ?_]
    exact decide_eq_true fun hkey => hx (hkey ▸ List.mem_map_of_mem hy)

/-- Keeping the first ones in each of several lists beforehand changes nothing. -/
theorem firstByKey_flatMap_firstByKey (key : α → κ) (parts : List (List α)) :
    firstByKey key (parts.flatMap (firstByKey key)) = firstByKey key parts.flatten := by
  induction parts with
  | nil => rfl
  | cons part parts ih =>
    rw [List.flatMap_cons, List.flatten_cons, firstByKey_append, firstByKey_append, ih,
      firstByKey_of_nodup (nodup_firstByKey key part)]
    simp only [mem_map_firstByKey]

end FirstByKey

/-- Keeps the first entry of each type name and file name. -/
def dedupeTypes (types : List TypeEntry) : List TypeEntry :=
  firstByKey (fun t => (t.name, t.filename)) types

theorem mem_of_mem_dedupeTypes {type : TypeEntry} {types : List TypeEntry}
    (h : type ∈ dedupeTypes types) : type ∈ types := (firstByKey_sublist _ types).subset h

end Vicinity
