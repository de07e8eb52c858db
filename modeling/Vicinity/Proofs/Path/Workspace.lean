import Vicinity.Proofs.Path.Normalizing

/-!
# What lies in a directory

A path lies in a root if it is the root or goes on from it, when the double dots of both are resolved. That
is not what is tested: a path is below a root by its names as they are written, and as seen from a root it
is relative only if its first name behind the root's does not begin with two dots. The tests agree with
what is meant for the paths in which there are no such dots.

## What is proved

* `LiesIn.of_isBelow`, `liesIn_iff_isBelow`: the test by names.
* `relativePath_isAbsolute_iff`: the test by what a path looks like as seen from the root.
-/

namespace Vicinity.Path

/-- The path is the root or lies below it. -/
def LiesIn (path root : String) : Prop := (parse path).normalize.isBelow (parse root).normalize

instance (path root : String) : Decidable (LiesIn path root) :=
  inferInstanceAs (Decidable ((parse path).normalize.isBelow (parse root).normalize = true))

variable {p q : Path} {path root : String}

theorem isBelow_iff (hq : q.isAbsolute) :
    p.isBelow q ↔ p.slashes = q.slashes ∧ q.segments <+: p.segments := by
  have hslashes : q.slashes ≠ 0 := by simpa [isAbsolute] using hq
  simp [isBelow, hslashes]

theorem liesIn_iff (hroot : (parse root).isAbsolute) :
    LiesIn path root ↔ (parse path).slashes = (parse root).slashes ∧ namesOf root <+: namesOf path :=
  isBelow_iff hroot

/-- **A path that goes on from the root lies in it** if no double dots follow. -/
theorem LiesIn.of_isBelow (hroot : (parse root).isAbsolute)
    (hdots : ".." ∉ (parse path).segments.drop (parse root).segments.length)
    (h : (parse path).isBelow (parse root)) : LiesIn path root := by
  obtain ⟨hslashes, rest, hrest⟩ := (isBelow_iff hroot).mp h
  rw [← hrest, List.drop_left] at hdots
  refine (liesIn_iff hroot).mpr ⟨hslashes, rest, ?_⟩
  have habsolute : (parse path).isAbsolute = (parse root).isAbsolute := by
    rw [isAbsolute, isAbsolute, hslashes]
  rw [namesOf, namesOf, normalize, normalize, habsolute, ← hrest, List.foldl_append,
    foldl_push_of_not_mem hdots]

/-- Without double dots, names are resolved as they are written. -/
theorem liesIn_iff_isBelow (hroot : ".." ∉ (parse root).segments)
    (hpath : ".." ∉ (parse path).segments) : LiesIn path root ↔ (parse path).isBelow (parse root) := by
  rw [LiesIn, normalize_of_not_mem hroot, normalize_of_not_mem hpath]

/-- **As seen from a root a path is relative** if it lies in it and its first name behind the root's does
not begin with two dots. -/
theorem relativePath_isAbsolute_iff (hpath : (parse path).isAbsolute) (hroot : (parse root).isAbsolute)
    (hslashes : (parse path).slashes = (parse root).slashes) :
    (parse (relativePath path (some root))).isAbsolute = false ↔
      LiesIn path root ∧ ∀ rest, namesOf path = namesOf root ++ rest →
        ∀ first ∈ rest.head?, ¬BeginsWithDots first := by
  rw [liesIn_iff hroot]
  rcases relativePath_cases hpath hroot with ⟨rest, hrest, -, hfirst, hparse⟩ | ⟨hname, hdots⟩
  · rw [hparse]
    refine ⟨fun _ => ⟨⟨hslashes, rest, hrest.symm⟩, fun other hother => ?_⟩, fun _ => rfl⟩
    rwa [← List.append_cancel_left (hrest.symm.trans hother)]
  · rw [hname, hpath]
    refine ⟨fun h => absurd h (by decide), ?_⟩
    rintro ⟨⟨-, rest, hrest⟩, hfirst⟩
    obtain ⟨first, hmem, hname⟩ := hdots rest hrest.symm
    exact absurd hname (hfirst rest hrest.symm first hmem)

end Vicinity.Path
