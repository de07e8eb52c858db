import Vicinity.Proofs.Candidate.Words

/-!
# The identifier under the cursor

The identifier at a column is the run of identifier characters around it. Reading it goes from the column to
both sides, while looking for a word goes through the line from the left; both mean the same: a word that
stands in the line as a whole.

## What is proved

* `WholeAt.unique`: at most one word stands as a whole over a column.
* `identifierAt_eq_some_iff`: a word is read at a column exactly if it stands as a whole over it.
-/

namespace Vicinity

open Text

theorem takeWhile_eq_nil_iff_head? {α : Type} {p : α → Bool} {xs : List α} :
    xs.takeWhile p = [] ↔ ∀ x ∈ xs.head?, p x = false := by
  cases xs with
  | nil => simp
  | cons x xs => cases hx : p x <;> simp [hx]

theorem isDigit_eq_false_of_start {c : Char} (h : isIdentifierStart c = true) : c.isDigit = false := by
  simp only [isIdentifierStart, Bool.or_eq_true, beq_iff_eq] at h
  rcases h with (halpha | rfl) | rfl
  · have hletter : c.isUpper = true ∨ c.isLower = true := (Bool.or_eq_true _ _).mp halpha
    have hcode : 'A'.val ≤ c.val := by
      rcases hletter with hupper | hlower
      · exact (@of_decide_eq_true _ _ hupper).1
      · have hfrom : 'a'.val ≤ c.val := of_decide_eq_true ((Bool.and_eq_true _ _).mp hlower).1
        exact UInt32.le_trans (by decide) hfrom
    rw [← Bool.not_eq_true, Char.isDigit_iff_toNat]
    have hnat : 65 ≤ c.toNat := UInt32.le_iff_toNat_le.mp hcode
    simp
    omega
  · rfl
  · rfl

theorem isIdentifierStart_of_char {c : Char} (h : isIdentifierChar c = true)
    (hdigit : c.isDigit = false) : isIdentifierStart c = true := by
  simp only [isIdentifierChar, isIdentifierStart, Char.isAlphanum, Bool.or_eq_true] at h ⊢
  simpa [hdigit] using h

/-! ### Words over a column -/

section

variable {text before word after before' word' after' : List Char} {k : Nat}

theorem WholeAt.getElem? (h : WholeAt text before word after) {i : Nat} (hi : i < word.length) :
    text[before.length + i]? = word[i]? := by
  rw [h.text_eq, List.append_assoc, List.getElem?_append_right (Nat.le_add_right _ _),
    Nat.add_sub_cancel_left, List.getElem?_append_left hi]

/-- A character over which a word of identifier characters stands is one of them. -/
theorem WholeAt.isIdentifierChar (h : WholeAt text before word after)
    (hchars : ∀ c ∈ word, Vicinity.isIdentifierChar c = true) (hfrom : before.length ≤ k)
    (hto : k < before.length + word.length) :
    ∀ c ∈ text[k]?, Vicinity.isIdentifierChar c = true := by
  intro c hc
  obtain ⟨i, rfl⟩ := Nat.exists_eq_add_of_le hfrom
  rw [h.getElem? (by omega)] at hc
  exact hchars c (List.mem_of_getElem? hc)

/-- Of two words over a column, neither begins after the other one. -/
theorem WholeAt.length_before_le (h : WholeAt text before word after)
    (h' : WholeAt text before' word' after')
    (hchars : ∀ c ∈ word', Vicinity.isIdentifierChar c = true) (hfrom : before.length ≤ k)
    (hto : k < before'.length + word'.length) : before.length ≤ before'.length := by
  by_contra hlater
  obtain ⟨front, c, rfl⟩ : ∃ front c, before = front ++ [c] := by
    rcases List.eq_nil_or_concat before with rfl | ⟨front, c, rfl⟩
    · simp at hlater
    · exact ⟨front, c, List.concat_eq_append⟩
  rw [List.length_append, List.length_singleton] at hlater hfrom
  have hfree := h.before_free c (by simp)
  have hhere : text[front.length]? = some c := by simp [h.text_eq]
  rw [h'.isIdentifierChar hchars (by omega) (by omega) c hhere] at hfree
  cases hfree

/-- Nor does one of them end before the other. -/
theorem WholeAt.length_word_le (h : WholeAt text before word after)
    (h' : WholeAt text before' word' after')
    (hchars : ∀ c ∈ word', Vicinity.isIdentifierChar c = true) (hfrom : before'.length ≤ k)
    (hto : k < before.length + word.length) :
    before'.length + word'.length ≤ before.length + word.length := by
  by_contra hlater
  have hlength := congrArg List.length (h.text_eq.symm.trans h'.text_eq)
  simp only [List.length_append] at hlength
  cases after with
  | nil =>
    simp only [List.length_nil] at hlength
    omega
  | cons c after =>
    have hfree := h.after_free c rfl
    have hhere : text[before.length + word.length]? = some c := by
      rw [h.text_eq, ← List.length_append, List.getElem?_append_right (Nat.le_refl _)]
      simp
    rw [h'.isIdentifierChar hchars (by omega) (by omega) c hhere] at hfree
    cases hfree

/-- **At most one word stands over a column.** -/
theorem WholeAt.unique (h : WholeAt text before word after) (h' : WholeAt text before' word' after')
    (hchars : ∀ c ∈ word, Vicinity.isIdentifierChar c = true)
    (hchars' : ∀ c ∈ word', Vicinity.isIdentifierChar c = true)
    (hfrom : before.length ≤ k) (hto : k < before.length + word.length)
    (hfrom' : before'.length ≤ k) (hto' : k < before'.length + word'.length) :
    before = before' ∧ word = word' := by
  have hbefore : before.length = before'.length :=
    Nat.le_antisymm (h.length_before_le h' hchars' hfrom hto')
      (h'.length_before_le h hchars hfrom' hto)
  have hword : before.length + word.length = before'.length + word'.length :=
    Nat.le_antisymm (h'.length_word_le h hchars hfrom hto') (h.length_word_le h' hchars' hfrom' hto)
  have htext := h.text_eq.symm.trans h'.text_eq
  rw [List.append_assoc, List.append_assoc] at htext
  obtain ⟨rfl, hrest⟩ := List.append_inj htext hbefore
  exact ⟨rfl, (List.append_inj hrest (by omega)).1⟩

end

/-! ### Reading at a column -/

/-- What is read at a column: the identifier characters before it and those from it on are a run that stands
in the line as a whole. -/
theorem exists_run (line : List Char) (k : Nat) :
    ∃ front run run' back, WholeAt line front (run ++ run') back ∧
      (∀ c ∈ run ++ run', isIdentifierChar c = true) ∧ front.length + run.length = min k line.length ∧
      ((line.take k).reverse.takeWhile isIdentifierChar).reverse = run ∧
      (line.drop k).takeWhile isIdentifierChar = run' := by
  have hfront : ∀ c ∈ ((line.take k).reverse.dropWhile isIdentifierChar).head?,
      isIdentifierChar c = false := Pattern.head?_dropWhile _ _
  have hback : ∀ c ∈ ((line.drop k).dropWhile isIdentifierChar).head?,
      isIdentifierChar c = false := Pattern.head?_dropWhile _ _
  refine ⟨((line.take k).reverse.dropWhile isIdentifierChar).reverse, _, _,
    (line.drop k).dropWhile isIdentifierChar, ⟨?_, ?_, hback⟩, ?_, ?_, rfl, rfl⟩
  · rw [← List.append_assoc, ← List.reverse_append, List.takeWhile_append_dropWhile,
      List.reverse_reverse, List.append_assoc, List.takeWhile_append_dropWhile,
      List.take_append_drop]
  · rwa [List.getLast?_reverse]
  · intro c hc
    rw [List.mem_append, List.mem_reverse] at hc
    rcases hc with hc | hc
    · exact List.mem_takeWhile_imp hc
    · exact List.mem_takeWhile_imp hc
  · have hlength := congrArg List.length
      (@List.takeWhile_append_dropWhile _ isIdentifierChar (line.take k).reverse)
    simp only [List.length_append, List.length_reverse, List.length_take] at hlength ⊢
    omega

/-- **A word is read at a column exactly if it stands over it as a whole.** -/
theorem identifierAt_eq_some_iff {line word : List Char} {column : Int} :
    identifierAt line column = some word ↔
      IsIdentifier word ∧ ∃ before after, WholeAt line before word after ∧
        (before.length : Int) ≤ column ∧ column < before.length + word.length := by
  obtain ⟨front, run, run', back, hwhole, hchars, hlength, hrun, hrun'⟩ := exists_run line column.toNat
  unfold identifierAt
  simp only [hrun, hrun']
  constructor
  · intro h
    split_ifs at h with hout hnone
    rw [Bool.or_eq_true, decide_eq_true_eq, decide_eq_true_eq, not_or] at hout
    have hpos : 0 < run'.length := List.length_pos_iff.mpr (by simpa using hnone)
    split at h
    · cases h
    · rename_i c rest hread
      split_ifs at h with hdigit
      cases h
      rw [hread] at hwhole hchars
      rw [List.forall_mem_cons] at hchars
      have hcount := congrArg List.length hread
      rw [List.length_append] at hcount
      refine ⟨⟨c, rest, rfl, isIdentifierStart_of_char hchars.1 (by simpa using hdigit), hchars.2⟩,
        front, back, hwhole, ?_, ?_⟩
      · omega
      · omega
  · rintro ⟨hword, before, after, hstands, hfrom, hto⟩
    have htext := congrArg List.length hstands.text_eq
    simp only [List.length_append] at htext
    have hin : ¬(column < 0 || column ≥ line.length) = true := by
      rw [Bool.or_eq_true, decide_eq_true_eq, decide_eq_true_eq]
      omega
    have hsome : run' ≠ [] := by
      -- the character at the column belongs to the word
      rw [← hrun', ne_eq, takeWhile_eq_nil_iff_head?, List.head?_drop]
      intro hnone
      have hlt : column.toNat < line.length := by omega
      have hhere := List.getElem?_eq_getElem hlt
      have hchar := hstands.isIdentifierChar hword.chars (k := column.toNat) (by omega) (by omega) _ hhere
      rw [hnone _ hhere] at hchar
      cases hchar
    have hpos := List.length_pos_iff.mpr hsome
    obtain ⟨-, hsame⟩ := hwhole.unique hstands hchars hword.chars (k := column.toNat) (by omega)
      (by rw [List.length_append]; omega) (by omega) (by omega)
    obtain ⟨c, rest, rfl, hstart, hrest⟩ := hword
    rw [if_neg hin, if_neg (by simpa using hsome), hsame]
    simp [isDigit_eq_false_of_start hstart]

end Vicinity
