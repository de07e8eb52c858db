import Vicinity.Declaration.Comment

/-!
# Replacing comments

The scan that replaces comments carries along what it has kept, the number of characters it has still
to pass, and the character before. `cleaned` is what it makes of the rest of a text at a place where no
character is to be passed; it has one equation for a place where a comment stands and one for a place
where none does, and nothing else is used of the scan.

## What is proved

* `cleaned_of_none`, `cleaned_of_some`: the two equations.
* `line_split`: the rest of a line, and what comes after it.
-/

namespace Vicinity.Comment

open Vicinity.Text

variable {comment : Option Char → List Char → Option Found}

/-- What the scan makes of a text that comes after the character `before`. -/
def cleaned (comment : Option Char → List Char → Option Found) (before : Option Char)
    (s : List Char) : List Char :=
  replaceAll.go comment s before 0 []

theorem replaceAll_eq (s : List Char) : replaceAll comment s = cleaned comment none s := rfl

/-- What has been kept so far stands in front. -/
theorem go_eq_append (s : List Char) (before : Option Char) (skip : Nat) (done : List Char) :
    replaceAll.go comment s before skip done =
      done.reverse ++ replaceAll.go comment s before skip [] := by
  induction s generalizing before skip done with
  | nil => simp [replaceAll.go]
  | cons c s ih =>
    cases skip with
    | succ skip => exact ih (some c) skip done
    | zero =>
      unfold replaceAll.go
      cases comment before (c :: s) with
      | none =>
        dsimp only
        rw [ih (some c) 0 (c :: done), ih (some c) 0 [c]]
        simp
      | some found =>
        dsimp only
        rw [ih (some c) _ (found.kept.reverse ++ done), ih (some c) _ (found.kept.reverse ++ [])]
        simp

/-- Characters that are passed leave nothing. -/
theorem go_skip (taken s : List Char) (before : Option Char) :
    replaceAll.go comment (taken ++ s) before taken.length [] =
      cleaned comment (taken.getLast?.or before) s := by
  induction taken generalizing before with
  | nil => rfl
  | cons c taken ih =>
    rw [getLast?_cons_or, ← ih (some c)]
    rfl

/-- A character with which no comment begins is kept. -/
theorem cleaned_of_none {before : Option Char} {c : Char} {s : List Char}
    (h : comment before (c :: s) = none) :
    cleaned comment before (c :: s) = c :: cleaned comment (some c) s := by
  have hgo : cleaned comment before (c :: s) = replaceAll.go comment s (some c) 0 [c] := by
    rw [cleaned, replaceAll.go, h]
  rw [hgo, go_eq_append]
  rfl

/-- Of a comment what is to be kept of it is kept, and the scan goes on behind it. -/
theorem cleaned_of_some {before : Option Char} {taken s kept : List Char} (hne : taken ≠ [])
    (h : comment before (taken ++ s) = some ⟨kept, taken.length⟩) :
    cleaned comment before (taken ++ s) = kept ++ cleaned comment taken.getLast? s := by
  obtain ⟨c, taken, rfl⟩ := List.exists_cons_of_ne_nil hne
  rw [List.cons_append] at h
  have hgo : cleaned comment before (c :: taken ++ s) =
      replaceAll.go comment (taken ++ s) (some c) taken.length (kept.reverse ++ []) := by
    rw [List.cons_append, cleaned, replaceAll.go, h]
    rfl
  have hlast : (c :: taken).getLast? = taken.getLast?.or (some c) := by
    simpa using getLast?_cons_or c taken none
  rw [hgo, go_eq_append, go_skip, hlast]
  simp

/-- A text is the rest of its line and what comes after that: nothing, or a line feed and more. -/
theorem line_split (s : List Char) :
    ∃ body tail, s = body ++ tail ∧ '\n' ∉ body ∧ lineLength s = body.length ∧
      ∀ c ∈ tail.head?, c = '\n' := by
  refine ⟨s.takeWhile (· != '\n'), s.dropWhile (· != '\n'), List.takeWhile_append_dropWhile.symm,
    fun hmem => ?_, rfl, fun c hc => ?_⟩
  · simpa using List.all_eq_true.mp List.all_takeWhile '\n' hmem
  · have hhead := List.head?_dropWhile_not (· != '\n') s
    rw [Option.mem_def.mp hc] at hhead
    simpa using hhead

end Vicinity.Comment
