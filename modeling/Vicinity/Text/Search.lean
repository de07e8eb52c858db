/-!
# Finding a text in a text

Occurrences of one text inside another, and the replacement of single characters.
-/

namespace Vicinity.Text

/-- The index of the first occurrence of `needle`, counting the first character as `start`. -/
def findFrom (needle : List Char) (start : Nat) : List Char → Option Nat
  | [] => if needle.isEmpty then some start else none
  | c :: s => if needle.isPrefixOf (c :: s) then some start else findFrom needle (start + 1) s

/-- The index of the first occurrence of `needle` in a text. -/
def find (needle s : List Char) : Option Nat := findFrom needle 0 s

theorem findFrom_add (needle : List Char) (start k : Nat) (s : List Char) :
    findFrom needle (start + k) s = (findFrom needle start s).map (· + k) := by
  induction s generalizing start with
  | nil =>
    unfold findFrom
    split <;> rfl
  | cons c s ih =>
    unfold findFrom
    split
    · rfl
    · rw [Nat.add_right_comm, ih]

theorem find_nil (needle : List Char) : find needle [] = if needle.isEmpty then some 0 else none := rfl

/-- A text is found at the beginning or else in what comes after the first character. -/
theorem find_cons (needle : List Char) (c : Char) (s : List Char) :
    find needle (c :: s) =
      if needle.isPrefixOf (c :: s) then some 0 else (find needle s).map (· + 1) := by
  rw [find, findFrom, findFrom_add]
  rfl

/-- What is found is the first place at which the text stands. -/
theorem find_eq_some_iff {needle s : List Char} {i : Nat} :
    find needle s = some i ↔ needle <+: s.drop i ∧ ∀ j < i, ¬needle <+: s.drop j := by
  induction s generalizing i with
  | nil =>
    cases needle with
    | nil =>
      have hzero : find [] [] = some 0 := rfl
      rw [hzero, Option.some.injEq]
      constructor
      · rintro rfl
        exact ⟨List.nil_prefix, fun j hj => absurd hj (Nat.not_lt_zero j)⟩
      · intro h
        cases i with
        | zero => rfl
        | succ i => exact absurd List.nil_prefix (h.2 0 (Nat.succ_pos i))
    | cons d needle => simp [find_nil]
  | cons c s ih =>
    rw [find_cons]
    by_cases hhere : needle.isPrefixOf (c :: s) = true
    · rw [if_pos hhere, Option.some.injEq]
      have hbegins : needle <+: c :: s := List.isPrefixOf_iff_prefix.mp hhere
      constructor
      · rintro rfl
        exact ⟨hbegins, fun j hj => absurd hj (Nat.not_lt_zero j)⟩
      · intro h
        cases i with
        | zero => rfl
        | succ i => exact absurd hbegins (h.2 0 (Nat.succ_pos i))
    · rw [if_neg hhere]
      have hbegins : ¬needle <+: c :: s := fun h => hhere (List.isPrefixOf_iff_prefix.mpr h)
      cases i with
      | zero =>
        simp [hbegins]
      | succ i =>
        have hmap : (find needle s).map (· + 1) = some (i + 1) ↔ find needle s = some i := by simp
        rw [hmap, ih]
        constructor
        · rintro ⟨hi, hbefore⟩
          refine ⟨hi, fun j hj => ?_⟩
          cases j with
          | zero => exact hbegins
          | succ j => exact hbefore j (by omega)
        · rintro ⟨hi, hbefore⟩
          exact ⟨hi, fun j hj => hbefore (j + 1) (by omega)⟩

/-- A text that stands somewhere is found. -/
theorem find_eq_none_iff {needle s : List Char} :
    find needle s = none ↔ ∀ i, ¬needle <+: s.drop i := by
  constructor
  · intro h i hi
    have hleast : ∃ j, needle <+: s.drop j ∧ ∀ k < j, ¬needle <+: s.drop k := by
      induction i using Nat.strongRecOn with
      | _ i ih =>
        by_cases hsmaller : ∃ k < i, needle <+: s.drop k
        · obtain ⟨k, hk, hbegins⟩ := hsmaller
          exact ih k hk hbegins
        · exact ⟨i, hi, fun k hk hbegins => hsmaller ⟨k, hk, hbegins⟩⟩
    obtain ⟨j, hj⟩ := hleast
    rw [find_eq_some_iff.mpr hj] at h
    cases h
  · intro h
    cases hfind : find needle s with
    | none => rfl
    | some i => exact absurd (find_eq_some_iff.mp hfind).1 (h i)

/-- The character before a place: the last one passed on the way to it, or the one before these. -/
theorem getLast?_cons_or (c : Char) (passed : List Char) (previous : Option Char) :
    (c :: passed).getLast?.or previous = passed.getLast?.or (some c) := by
  rw [List.getLast?_cons, Option.or_some]
  rfl

/-- Whether `needle` occurs in a text. -/
def occurs (needle s : List Char) : Bool := (find needle s).isSome

/-- The text with one character put in place of another. -/
def replaceChar (old new : Char) (s : List Char) : List Char :=
  s.map fun c => if c = old then new else c

end Vicinity.Text
