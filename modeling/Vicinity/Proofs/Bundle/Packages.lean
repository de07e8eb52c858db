import Mathlib.Data.List.Induction
import Vicinity.Bundle

/-!
# Packages put together

Packages are kept in the order in which their names first came, each with its latest version. This
module shows that they may be put together in groups: updating by packages that have been put together
is updating by them one after the other (`update_update_nil`).
-/

namespace Vicinity.Packages

/-- The names of packages. -/
def names (packages : Packages) : List String := packages.map (·.1)

@[simp] theorem names_cons (package : String × String) (packages : Packages) :
    names (package :: packages) = package.1 :: names packages := rfl

theorem insert_cons (package new : String × String) (packages : Packages) :
    insert (package :: packages) new =
      if package.1 = new.1 then (package.1, new.2) :: packages
      else package :: insert packages new := rfl

theorem mem_names_insert {packages : Packages} {new : String × String} {name : String} :
    name ∈ names (insert packages new) ↔ name = new.1 ∨ name ∈ names packages := by
  induction packages with
  | nil => simp [insert, names]
  | cons package packages ih =>
    rw [insert_cons]
    by_cases h : package.1 = new.1
    · simp [h, names]
    · rw [if_neg h, names_cons, names_cons, List.mem_cons, List.mem_cons, ih]
      exact or_left_comm

theorem nodup_insert {packages : Packages} (h : (names packages).Nodup) (new : String × String) :
    (names (insert packages new)).Nodup := by
  induction packages with
  | nil => simp [insert, names]
  | cons package packages ih =>
    obtain ⟨hfresh, hrest⟩ := List.nodup_cons.mp h
    rw [insert_cons]
    by_cases heq : package.1 = new.1
    · simpa [heq, names] using h
    · rw [if_neg heq]
      refine List.nodup_cons.mpr ⟨fun hmem => ?_, ih hrest⟩
      exact (mem_names_insert.mp hmem).elim heq hfresh

theorem nodup_update {packages : Packages} (h : (names packages).Nodup) (more : Packages) :
    (names (update packages more)).Nodup := by
  unfold update
  induction more generalizing packages with
  | nil => exact h
  | cons new more ih => exact ih (nodup_insert h new)

/-- The later version of a package takes the place of the earlier one. -/
theorem insert_insert (packages : Packages) {old new : String × String} (h : old.1 = new.1) :
    insert (insert packages old) new = insert packages new := by
  induction packages with
  | nil => simp [insert, h]
  | cons package packages ih =>
    rw [insert_cons, insert_cons]
    by_cases hold : package.1 = old.1
    · simp [insert_cons, hold, h]
    · have hnew : package.1 ≠ new.1 := h ▸ hold
      simp [insert_cons, hold, hnew, ih]

/-- A package that has its place already may be inserted before or after another one. -/
theorem insert_comm {packages : Packages} {a b : String × String} (ha : a.1 ∈ names packages)
    (hne : a.1 ≠ b.1) : insert (insert packages b) a = insert (insert packages a) b := by
  induction packages with
  | nil => cases ha
  | cons package packages ih =>
    by_cases hpa : package.1 = a.1
    · simp [insert_cons, hpa, hne]
    · have ha : a.1 ∈ names packages := by
        simpa [names, Ne.symm hpa] using ha
      by_cases hpb : package.1 = b.1
      · simp [insert_cons, hpb, Ne.symm hne]
      · simp [insert_cons, hpa, hpb, ih ha]

theorem update_append (packages more most : Packages) :
    update packages (more ++ most) = update (update packages more) most := List.foldl_append

theorem insert_update {packages more : Packages} {new : String × String}
    (hnew : new.1 ∈ names packages) (hmore : new.1 ∉ names more) :
    insert (update packages more) new = update (insert packages new) more := by
  induction more generalizing packages with
  | nil => rfl
  | cons package more ih =>
    obtain ⟨hne, hmore⟩ : new.1 ≠ package.1 ∧ new.1 ∉ names more := by
      simpa [names, not_or] using hmore
    calc insert (update packages (package :: more)) new
        = insert (update (insert packages package) more) new := rfl
      _ = update (insert (insert packages package) new) more :=
          ih (mem_names_insert.mpr (.inr hnew)) hmore
      _ = update (insert (insert packages new) package) more := by rw [insert_comm hnew hne]

/-- Updating by packages with one more is inserting the one more afterwards. -/
theorem update_insert (packages : Packages) {more : Packages} (h : (names more).Nodup)
    (new : String × String) :
    update packages (insert more new) = insert (update packages more) new := by
  induction more generalizing packages with
  | nil => rfl
  | cons package more ih =>
    obtain ⟨hfresh, hmore⟩ := List.nodup_cons.mp h
    rw [insert_cons]
    by_cases heq : package.1 = new.1
    · have hplace : new.1 ∈ names (insert packages package) :=
        mem_names_insert.mpr (.inl heq.symm)
      rw [if_pos heq, heq]
      calc update packages (new :: more)
          = update (insert (insert packages package) new) more := by
            rw [insert_insert packages heq]; rfl
        _ = insert (update (insert packages package) more) new :=
            (insert_update hplace (heq ▸ hfresh)).symm
    · rw [if_neg heq]
      exact ih (insert packages package) hmore

/-- Putting several packages together beforehand changes nothing. -/
theorem update_update_nil (packages more : Packages) :
    update packages (update [] more) = update packages more := by
  induction more using List.reverseRecOn with
  | nil => rfl
  | append_singleton more new ih =>
    have hnodup : (names (update [] more)).Nodup :=
      nodup_update (show (names []).Nodup from .nil) more
    calc update packages (update [] (more ++ [new]))
        = update packages (insert (update [] more) new) := by rw [update_append]; rfl
      _ = insert (update packages more) new := by rw [update_insert packages hnodup, ih]
      _ = update packages (more ++ [new]) := by rw [update_append]; rfl

end Vicinity.Packages
