/-!
# Blanks

The whitespace characters of Unicode text and what is done with them: trimming a text, finding its
first word. The information separators `U+001C` to `U+001F` and the next-line character `U+0085`
count as blanks. Trimming twice is trimming once, at either end and at both (`trim_trim`).
-/

namespace Vicinity.Text

/-- A whitespace character. -/
def isBlank (c : Char) : Bool :=
  let n := c.toNat
  (0x09 ≤ n && n ≤ 0x0d) || (0x1c ≤ n && n ≤ 0x20) || n == 0x85 || n == 0xa0 || n == 0x1680 ||
    (0x2000 ≤ n && n ≤ 0x200a) || n == 0x2028 || n == 0x2029 || n == 0x202f || n == 0x205f ||
    n == 0x3000

/-- The text without its leading blanks. -/
def trimStart (s : List Char) : List Char := s.dropWhile isBlank

/-- The text without the characters at its end that `drop` holds of. -/
def trimEndWhile (drop : Char → Bool) (s : List Char) : List Char :=
  (s.reverse.dropWhile drop).reverse

/-- The text without its trailing blanks. -/
def trimEnd (s : List Char) : List Char := trimEndWhile isBlank s

/-- The text without the blanks at either end. -/
def trim (s : List Char) : List Char := trimEnd (trimStart s)

/-- Whether the text has nothing but blanks. -/
def allBlank (s : List Char) : Bool := s.all isBlank

/-- The characters from the first non-blank up to the next blank. -/
def firstWord (s : List Char) : List Char := (trimStart s).takeWhile (!isBlank ·)

@[simp] theorem trimStart_nil : trimStart [] = [] := rfl

@[simp] theorem trimEnd_nil : trimEnd [] = [] := rfl

theorem trimStart_cons_of_blank {c : Char} (s : List Char) (h : isBlank c) :
    trimStart (c :: s) = trimStart s := by
  simp [trimStart, h]

theorem trimStart_cons_of_not_blank {c : Char} (s : List Char) (h : isBlank c = false) :
    trimStart (c :: s) = c :: s := by
  simp [trimStart, h]

@[simp] theorem trimStart_trimStart (s : List Char) : trimStart (trimStart s) = trimStart s := by
  induction s with
  | nil => rfl
  | cons c s ih =>
    by_cases h : isBlank c
    · rw [trimStart_cons_of_blank s h, ih]
    · have h : isBlank c = false := by simpa using h
      rw [trimStart_cons_of_not_blank s h, trimStart_cons_of_not_blank s h]

/-- A character stays unless it and all that follows are blank. -/
theorem trimEnd_cons (c : Char) (s : List Char) :
    trimEnd (c :: s) = if isBlank c && allBlank s then [] else c :: trimEnd s := by
  have hall : allBlank s = (s.reverse.dropWhile isBlank).isEmpty := by
    unfold allBlank
    rw [← List.all_reverse]
    induction s.reverse with
    | nil => rfl
    | cons d s ih => by_cases h : isBlank d <;> simp [h, ih]
  unfold trimEnd trimEndWhile
  rw [List.reverse_cons, List.dropWhile_append, hall]
  by_cases hs : (s.reverse.dropWhile isBlank).isEmpty
  · by_cases hc : isBlank c <;> simp [hs, hc]
    simpa using hs
  · simp [hs]

theorem trimEnd_of_allBlank {s : List Char} (h : allBlank s) : trimEnd s = [] := by
  cases s with
  | nil => rfl
  | cons c s =>
    have h : isBlank c && allBlank s := by simpa [allBlank] using h
    rw [trimEnd_cons, if_pos h]

@[simp] theorem allBlank_trimEnd (s : List Char) : allBlank (trimEnd s) = allBlank s := by
  induction s with
  | nil => rfl
  | cons c s ih =>
    rw [trimEnd_cons]
    by_cases h : isBlank c && allBlank s
    · rw [if_pos h]
      simpa [allBlank] using h
    · rw [if_neg h]
      simpa [allBlank] using congrArg (isBlank c && ·) ih

@[simp] theorem trimEnd_trimEnd (s : List Char) : trimEnd (trimEnd s) = trimEnd s := by
  induction s with
  | nil => rfl
  | cons c s ih =>
    rw [trimEnd_cons]
    by_cases h : isBlank c && allBlank s
    · rw [if_pos h, trimEnd_nil]
    · rw [if_neg h, trimEnd_cons, allBlank_trimEnd, if_neg h, ih]

/-- It does not matter which end is trimmed first. -/
theorem trimStart_trimEnd (s : List Char) : trimStart (trimEnd s) = trimEnd (trimStart s) := by
  induction s with
  | nil => rfl
  | cons c s ih =>
    by_cases hc : isBlank c
    · rw [trimStart_cons_of_blank s hc, trimEnd_cons]
      by_cases hs : allBlank s
      · rw [if_pos (by simp [hc, hs]), ← ih, trimEnd_of_allBlank hs]
      · rw [if_neg (by simp [hc, hs]), trimStart_cons_of_blank _ hc, ih]
    · have hc : isBlank c = false := by simpa using hc
      have hnot : ¬(isBlank c && allBlank s) := by simp [hc]
      rw [trimStart_cons_of_not_blank s hc, trimEnd_cons, if_neg hnot,
        trimStart_cons_of_not_blank _ hc]

@[simp] theorem trim_trimEnd (s : List Char) : trim (trimEnd s) = trim s := by
  unfold trim
  rw [trimStart_trimEnd, trimEnd_trimEnd]

@[simp] theorem trim_trim (s : List Char) : trim (trim s) = trim s := by
  calc trim (trim s) = trim (trimStart s) := trim_trimEnd (trimStart s)
    _ = trim s := by unfold trim; rw [trimStart_trimStart]

theorem prefix_trimEnd (s : List Char) : trimEnd s <+: s := by
  induction s with
  | nil => exact List.prefix_rfl
  | cons c s ih =>
    rw [trimEnd_cons]
    split
    · exact List.nil_prefix
    · exact (List.prefix_cons_inj c).mpr ih

/-- Only what comes after the last character that is no blank is trimmed. -/
theorem trimEnd_append {s : List Char} {c : Char} (hc : isBlank c = false) (t : List Char) :
    trimEnd (s ++ c :: t) = s ++ c :: trimEnd t := by
  induction s with
  | nil => rw [List.nil_append, trimEnd_cons, if_neg (by simp [hc]), List.nil_append]
  | cons d s ih =>
    rw [List.cons_append, trimEnd_cons, if_neg (by simp [allBlank, hc]), ih, List.cons_append]

theorem firstWord_cons_of_blank {c : Char} (hc : isBlank c = true) (s : List Char) :
    firstWord (c :: s) = firstWord s := by
  rw [firstWord, trimStart_cons_of_blank s hc, firstWord]

theorem takeWhile_trimEnd (s : List Char) :
    (trimEnd s).takeWhile (!isBlank ·) = s.takeWhile (!isBlank ·) := by
  induction s with
  | nil => rfl
  | cons c s ih =>
    rw [trimEnd_cons]
    split
    · rename_i hblank
      rw [Bool.and_eq_true] at hblank
      simp [hblank.1]
    · simp only [List.takeWhile_cons, ih]

/-- Trimming keeps the first word. -/
@[simp] theorem firstWord_trimEnd (s : List Char) : firstWord (trimEnd s) = firstWord s := by
  unfold firstWord
  rw [trimStart_trimEnd, takeWhile_trimEnd]

/-- What comes after a blank is not part of the first word, if there is a word before it. -/
theorem firstWord_append_cons {s : List Char} (hs : allBlank s = false) {c : Char}
    (hc : isBlank c = true) (t : List Char) : firstWord (s ++ c :: t) = firstWord s := by
  induction s with
  | nil => cases hs
  | cons d s ih =>
    by_cases hd : isBlank d = true
    · have hs : allBlank s = false := by simpa [allBlank, hd] using hs
      rw [List.cons_append, firstWord_cons_of_blank hd, firstWord_cons_of_blank hd, ih hs]
    · have hd : isBlank d = false := by simpa using hd
      rw [List.cons_append, firstWord, firstWord, trimStart_cons_of_not_blank _ hd,
        trimStart_cons_of_not_blank _ hd, ← List.cons_append]
      induction d :: s with
      | nil => simp [hc]
      | cons e more ihmore => simp only [List.cons_append, List.takeWhile_cons, ihmore]

theorem mem_of_mem_trim {c : Char} {s : List Char} (h : c ∈ trim s) : c ∈ s := by
  have hend : c ∈ trimStart s := by
    unfold trim trimEnd trimEndWhile at h
    exact List.mem_reverse.mp ((List.dropWhile_sublist _).subset (List.mem_reverse.mp h))
  exact (List.dropWhile_sublist _).subset hend

end Vicinity.Text
