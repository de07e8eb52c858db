import Vicinity.CodeUnit
import Vicinity.Proofs.Path.Normalizing

/-!
# File names

The file of a type is named by its path as seen from the workspace root, and types are told apart by their
names and the names of their files. A file name read in the root leads back to the file, whichever form it
has: names below the root, which hold no double dots, or the path itself. So two files never share one.

## What is proved

* `append_relativePath`: a file name, read in the root, leads to the file.
* `relativePath_identifies`: different files have different names, and of the types of a file none is
  left out for one of another file.
-/

namespace Vicinity

open Vicinity.Path

/-- An absolute path, not written with exactly two slashes at the beginning. -/
structure Path.IsRooted (path : String) : Prop where
  absolute : (parse path).isAbsolute
  slashes_ne : (parse path).slashes ≠ 2

instance (path : String) : Decidable (IsRooted path) :=
  decidable_of_iff ((parse path).isAbsolute ∧ (parse path).slashes ≠ 2)
    ⟨fun h => ⟨h.1, h.2⟩, fun h => ⟨h.absolute, h.slashes_ne⟩⟩

variable {root path : String}

theorem Path.IsRooted.slashes (h : IsRooted path) : (parse path).slashes = 1 := by
  have hle := (read_parse path).slashes_le
  have hne := h.slashes_ne
  have habsolute : (parse path).slashes ≠ 0 := by simpa [isAbsolute] using h.absolute
  omega

/-- **A file name, read in the root, leads to the file.** -/
theorem append_relativePath (hroot : IsRooted root) (hpath : IsRooted path) :
    (parse root ++ parse (relativePath path (some root))).normalize = (parse path).normalize := by
  rcases relativePath_cases hpath.absolute hroot.absolute with
    ⟨rest, hrest, hdots, -, hparse⟩ | ⟨hname, -⟩
  · have hgoal : (parse path).normalize = ⟨(parse path).slashes, namesOf path⟩ := rfl
    rw [hparse, normalize_append rfl, foldl_push_of_not_mem hdots, hgoal, hrest, hroot.slashes,
      hpath.slashes]
    rfl
  · rw [hname, append_of_isAbsolute hpath.absolute]

/-- The file of a type has a path and is named as seen from the root. -/
structure TypeEntry.NamedFrom (root : String) (type : TypeEntry) : Prop where
  rooted : IsRooted type.path
  filename : type.filename = relativePath type.path (some root)

/-- **File names identify files.** A file name read in the root leads to the file; two files have different
names; and leaving out the types whose name and file name have come before leaves, for each type, one of
that name in the same file. -/
theorem relativePath_identifies (root : String) (hroot : IsRooted root) :
    (∀ path, IsRooted path →
      (parse root ++ parse (relativePath path (some root))).normalize = (parse path).normalize) ∧
    (∀ path other, IsRooted path → IsRooted other →
      (parse path).normalize ≠ (parse other).normalize →
        relativePath path (some root) ≠ relativePath other (some root)) ∧
    ∀ types : List TypeEntry, (∀ type ∈ types, type.NamedFrom root) → ∀ type ∈ types,
      ∃ kept ∈ dedupeTypes types, kept.name = type.name ∧ kept.filename = type.filename ∧
        (parse kept.path).normalize = (parse type.path).normalize := by
  have hinjective : ∀ path other, IsRooted path → IsRooted other →
      relativePath path (some root) = relativePath other (some root) →
        (parse path).normalize = (parse other).normalize := by
    intro path other hpath hother heq
    rw [← append_relativePath hroot hpath, heq, append_relativePath hroot hother]
  refine ⟨fun path hpath => append_relativePath hroot hpath,
    fun path other hpath hother hne heq => hne (hinjective path other hpath hother heq),
    fun types hnamed type htype => ?_⟩
  have hsame : ∃ kept ∈ dedupeTypes types, (kept.name, kept.filename) = (type.name, type.filename) :=
    exists_mem_firstByKey htype
  obtain ⟨kept, hkept, hkey⟩ := hsame
  obtain ⟨hname, hfilename⟩ := Prod.mk.inj hkey
  have hfrom := hnamed kept (mem_of_mem_dedupeTypes hkept)
  refine ⟨kept, hkept, hname, hfilename, hinjective _ _ hfrom.rooted (hnamed type htype).rooted ?_⟩
  rw [← hfrom.filename, hfilename, (hnamed type htype).filename]

/-- Types of one name in several files, two of them written differently. -/
def sameNameTypes : List TypeEntry :=
  ["/ws/a.ts", "/ws/lib/../a.ts", "/ws/..a.ts", "/ws/../a.ts"].map fun path =>
    { name := "A", filename := relativePath path (some "/ws"), text := "", path }

/-- Two paths of one file have one name; a file whose name begins with two dots and one above the root are
named by their paths. -/
theorem relativePath_identifies_sameName :
    (dedupeTypes sameNameTypes).map (·.filename) = ["a.ts", "/ws/..a.ts", "/ws/../a.ts"] ∧
    (parse "/ws" ++ parse (relativePath "/ws/lib/../a.ts" (some "/ws"))).normalize =
      (parse "/ws/lib/../a.ts").normalize ∧
    relativePath "/ws/..a.ts" (some "/ws") ≠ relativePath "/ws/a.ts" (some "/ws") ∧
    ∀ type ∈ sameNameTypes, ∃ kept ∈ dedupeTypes sameNameTypes, kept.name = type.name ∧
      kept.filename = type.filename ∧ (parse kept.path).normalize = (parse type.path).normalize := by
  obtain ⟨hleads, hdiffer, hkept⟩ := relativePath_identifies "/ws" (by decide +kernel)
  refine ⟨by decide +kernel, hleads _ (by decide +kernel),
    hdiffer _ _ (by decide +kernel) (by decide +kernel) (by decide +kernel), hkept _ ?_⟩
  refine List.forall_mem_map.mpr fun path hpath => ⟨?_, rfl⟩
  revert path
  decide +kernel

end Vicinity
