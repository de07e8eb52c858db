import Vicinity.Proofs.Text.Matching

/-!
# Where a pattern is found

A run at the end of a pattern takes all the characters that it can, and the search passes over the
places at which there is no match.

## What is proved

* `rest_of_matchAt_run`: what comes after a match that ends in a run.
* `atLineStart_of_runWith`: a pattern that begins with the beginning of a line is found nowhere else.
* `isSome_runWith_of_lineStart`: such a pattern is matched there if it reads what follows.
* `search_go_append`: a part of a text in which no match begins is passed over.
* `exists_place_of_search`: where the first match stands.
* `exists_mem_findAll`: where there is a match, it is found or an earlier one reaches beyond its beginning.
-/

namespace Vicinity.Text.Pattern

variable {accepts : Char → Bool} {cur : Cursor}

/-! ### Runs are longest -/

theorem head?_dropWhile (accepts : Char → Bool) (s : List Char) :
    ∀ c ∈ (s.dropWhile accepts).head?, accepts c = false := by
  intro c hc
  have h := List.head?_dropWhile_not accepts s
  rw [Option.mem_def] at hc
  rw [hc] at h
  simpa using h

/-- The first place that a run tries is the farthest. -/
theorem exists_reachable_go_eq (accepts : Char → Bool) (cur : Cursor) (acc : List Cursor) :
    ∃ far more, reachable.go accepts cur.rest cur acc = far :: more ∧
      far.rest = cur.rest.dropWhile accepts ∧
      far.offset = cur.offset + (cur.rest.takeWhile accepts).length := by
  generalize hrest : cur.rest = rest
  induction rest generalizing cur acc with
  | nil => exact ⟨cur, acc, rfl, hrest, rfl⟩
  | cons c rest ih =>
    unfold reachable.go
    split
    · rename_i hc
      obtain ⟨far, more, hfar, hfarrest, hoffset⟩ := ih (cur.step c rest) (cur :: acc) rfl
      refine ⟨far, more, hfar, ?_, ?_⟩
      · rw [hfarrest, List.dropWhile_cons_of_pos hc]
      · rw [hoffset, List.takeWhile_cons_of_pos hc, List.length_cons]
        show cur.offset + 1 + _ = _
        omega
    · rename_i hc
      refine ⟨cur, acc, rfl, ?_, ?_⟩
      · rw [List.dropWhile_cons_of_neg hc]
        exact hrest
      · rw [List.takeWhile_cons_of_neg hc]
        rfl

/-- A run stops where no character of its class comes next, if every place is accepted after it. -/
theorem rest_of_run {α : Type} {least : Nat} {f : Cursor → α} {answer : α}
    (h : (run least accepts).runWith cur (fun next => some (f next)) = some answer) :
    ∃ next, answer = f next ∧ next.rest = cur.rest.dropWhile accepts := by
  obtain ⟨far, more, hfar, hrest, hoffset⟩ := exists_reachable_go_eq accepts cur []
  have hlist : reachable accepts cur [] = far :: more := hfar
  simp only [runWith, hlist] at h
  by_cases hleast : far.offset < cur.offset + least
  · -- No place is farther than the farthest, so if that is too near there is none.
    obtain ⟨next, hnext, hanswer⟩ := exists_of_firstOf h
    rw [← hlist] at hnext
    split at hanswer
    · cases hanswer
    · rename_i hfarther
      obtain hnil | ⟨s, hs, hpast⟩ := past_of_mem_reachable_go hnext
      · cases hnil
      · have hlength : s.length ≤ (cur.rest.takeWhile accepts).length := by
          rw [hpast.rest_eq, List.takeWhile_append_of_pos hs, List.length_append]
          omega
        rw [hpast.offset_eq] at hfarther
        omega
  · unfold firstOf at h
    simp only [if_neg hleast] at h
    exact ⟨far, (Option.some.inj h).symm, hrest⟩

/-- **What comes after a match that ends in a captured run** does not go on with a character of the
run's class. -/
theorem rest_of_matchAt_run {p : Pattern} {least : Nat} {stop : Cursor}
    (h : (p ++ .capture (.run least accepts)).matchAt cur = some stop) :
    ∀ c ∈ stop.rest.head?, accepts c = false := by
  obtain ⟨_, _, mid, -, -, hrun⟩ := exists_reads_of_runWith (p := p) h
  obtain ⟨next, rfl, hnext⟩ := rest_of_run hrun
  show ∀ c ∈ next.rest.head?, accepts c = false
  rw [hnext]
  exact head?_dropWhile accepts mid.rest

/-! ### Beginnings of lines -/

/-- Whether the first thing that a pattern asks for is the beginning of a line. -/
def beginsLine : Pattern → Bool
  | .lineStart => true
  | .both p _ => p.beginsLine
  | _ => false

theorem atLineStart_of_runWith {α : Type} {p : Pattern} (hp : p.beginsLine = true)
    {k : Cursor → Option α} {answer : α} (h : p.runWith cur k = some answer) :
    cur.atLineStart = true := by
  induction p generalizing k with
  | lineStart =>
    simp only [runWith] at h
    split at h
    · assumption
    · cases h
  | both p q ihp => exact ihp hp h
  | _ => cases hp

/-- Whether a pattern only looks at the characters that it reads and at the beginning of a line before
them. -/
def isPlainFromLineStart : Pattern → Bool
  | .lineStart => true
  | .both p q => p.isPlainFromLineStart && q.isPlain
  | p => p.isPlain

/-- A text that such a pattern reads is matched at the beginning of a line. -/
theorem isSome_runWith_of_lineStart {α : Type} {p : Pattern} (hp : p.isPlainFromLineStart = true)
    (hcur : cur.atLineStart = true) {s tail : List Char} {a : List (List Char)} (h : p.Reads s a)
    (hrest : cur.rest = s ++ tail) {k : Cursor → Option α}
    (hk : ∀ next : Cursor, next.rest = tail → (k next).isSome) : (p.runWith cur k).isSome := by
  induction p generalizing s tail a k with
  | lineStart =>
    obtain ⟨rfl, -⟩ := reads_lineStart.mp h
    simp only [runWith, hcur, if_true]
    exact hk cur hrest
  | both p q ihp =>
    obtain ⟨hfirst, hsecond⟩ := Bool.and_eq_true_iff.mp hp
    obtain ⟨t, u, _, _, rfl, -, ht, hu⟩ := reads_append.mp h
    rw [List.append_assoc] at hrest
    exact ihp hfirst ht hrest fun next hnext => isSome_runWith hsecond hu hnext hk
  | _ => exact isSome_runWith hp h hrest hk

theorem atLineStart_after (before rest : List Char) :
    (Cursor.after before rest).atLineStart = before.getLast?.all (· == '\n') := by
  unfold Cursor.atLineStart Cursor.after
  cases before.getLast? <;> rfl

/-! ### Passing over places -/

variable {p : Pattern} {before s t : List Char} {stop : Cursor}

theorem search_go_of_matchAt (h : p.matchAt cur = some stop) (chars : List Char) :
    search.go p chars cur = some ⟨cur.offset, stop⟩ := by
  cases chars <;> simp [search.go, h]

/-- **A part of a text in which no match begins is passed over.** -/
theorem search_go_append
    (h : ∀ front c back, s = front ++ c :: back →
      p.matchAt (.after (before ++ front) (c :: back ++ t)) = none) :
    search.go p (s ++ t) (.after before (s ++ t)) = search.go p t (.after (before ++ s) t) := by
  induction s generalizing before with
  | nil => rw [List.nil_append, List.append_nil]
  | cons c s ih =>
    have hhere := h [] c s rfl
    rw [List.append_nil] at hhere
    rw [List.cons_append] at hhere ⊢
    simp only [search.go, hhere]
    rw [Cursor.step_after, ih, List.append_assoc]
    · rfl
    · intro front d back hs
      rw [List.append_assoc]
      exact h (c :: front) d back (by rw [hs]; rfl)

/-! ### The first match -/

/-- The place after some characters of a text. -/
theorem ofOffset_eq_after (s : List Char) (n : Nat) :
    Cursor.ofOffset s n = .after (s.take n) (s.drop n) := by
  cases n with
  | zero => rfl
  | succ n =>
    cases hrest : s.drop n with
    | nil =>
      have hlength : s.length ≤ n := List.drop_eq_nil_iff.mp hrest
      rw [List.take_of_length_le (by omega), List.drop_of_length_le (by omega)]
      simp only [Cursor.ofOffset, hrest, Cursor.after]
    | cons c rest =>
      have hn : n < s.length := by
        have hlength := congrArg List.length hrest
        rw [List.length_drop, List.length_cons] at hlength
        omega
      have htake : s.take (n + 1) = s.take n ++ [c] := by
        rw [List.take_add, hrest]
        rfl
      have hdrop : s.drop (n + 1) = rest := by
        rw [← List.drop_drop, hrest]
        rfl
      simp only [Cursor.ofOffset, hrest, htake, hdrop, Cursor.after, List.getLast?_concat,
        List.length_append, List.length_take, List.length_singleton,
        Nat.min_eq_left (Nat.le_of_lt hn)]

/-- **Where the first match stands.** -/
theorem exists_place_of_search {m : Match} {rest : List Char}
    (h : p.search (.after before rest) = some m) :
    ∃ skipped tail, rest = skipped ++ tail ∧ m.start = (before ++ skipped).length ∧
      p.matchAt (.after (before ++ skipped) tail) = some m.stop := by
  have hgo : search.go p rest (.after before rest) = some m := h
  clear h
  induction rest generalizing before with
  | nil =>
    obtain ⟨stop, hstop, rfl⟩ := Option.map_eq_some_iff.mp hgo
    exact ⟨[], [], rfl, by simp [Cursor.after], by rwa [List.append_nil]⟩
  | cons c rest ih =>
    unfold search.go at hgo
    split at hgo
    · rename_i stop hstop
      cases hgo
      exact ⟨[], c :: rest, rfl, by simp [Cursor.after], by rwa [List.append_nil]⟩
    · rw [Cursor.step_after] at hgo
      obtain ⟨skipped, tail, rfl, hstart, hmatch⟩ := ih hgo
      rw [List.append_assoc] at hstart hmatch
      exact ⟨c :: skipped, tail, rfl, hstart, hmatch⟩

/-! ### Finding all matches -/

theorem mem_findAll_go_of_mem {m : Match} {chars : List Char} {resume : Nat} {acc : List Match}
    (h : m ∈ acc) : m ∈ findAll.go p chars cur resume acc := by
  induction chars generalizing cur resume acc with
  | nil =>
    unfold findAll.go
    split
    · exact List.mem_reverse.mpr (List.mem_cons_of_mem _ h)
    · exact List.mem_reverse.mpr h
  | cons c rest ih =>
    unfold findAll.go
    split
    · exact ih h
    · split
      · exact ih (List.mem_cons_of_mem _ h)
      · exact ih h

/-- Where there is a match, it is found, unless one found before reaches beyond its beginning. -/
theorem exists_mem_findAll_go (before s : List Char) (acc : List Match) {rest : List Char}
    {resume : Nat}
    (h : p.matchAt (.after (before ++ s) rest) = some stop)
    (hresume : resume ≤ (before ++ s).length ∨
      ∃ m ∈ acc, m.start < (before ++ s).length ∧ (before ++ s).length < m.stop.offset) :
    ∃ m ∈ findAll.go p (s ++ rest) (.after before (s ++ rest)) resume acc,
      m = ⟨(before ++ s).length, stop⟩ ∨
        m.start < (before ++ s).length ∧ (before ++ s).length < m.stop.offset := by
  induction s generalizing before resume acc with
  | nil =>
    rcases hresume with hresume | ⟨m, hm, hover⟩
    swap
    · exact ⟨m, mem_findAll_go_of_mem hm, .inr hover⟩
    rw [List.append_nil] at h hresume ⊢
    have hhere : ¬((Cursor.after before rest).offset < resume) := Nat.not_lt.mpr hresume
    refine ⟨⟨before.length, stop⟩, ?_, .inl rfl⟩
    cases rest with
    | nil =>
      simp only [List.nil_append, findAll.go, h]
      exact List.mem_reverse.mpr List.mem_cons_self
    | cons c rest =>
      simp only [List.nil_append, findAll.go, h, if_neg hhere]
      exact mem_findAll_go_of_mem List.mem_cons_self
  | cons c s ih =>
    have hcut : before ++ c :: s = before ++ [c] ++ s := by simp
    rw [hcut] at h hresume ⊢
    rw [List.cons_append]
    unfold findAll.go
    rw [Cursor.step_after]
    split
    · exact ih _ _ h hresume
    · split
      · rename_i other hother
        refine ih _ _ h ?_
        by_cases hover : other.offset ≤ (before ++ [c] ++ s).length
        · exact .inl hover
        · refine .inr ⟨_, List.mem_cons_self, ?_, Nat.lt_of_not_le hover⟩
          show before.length < _
          simp only [List.length_append, List.length_singleton]
          omega
      · exact ih _ _ h hresume

/-- **Where there is a match, it is found**, or an earlier one is that reaches beyond its beginning. -/
theorem exists_mem_findAll {rest : List Char} (h : p.matchAt (.after before rest) = some stop) :
    ∃ m ∈ p.findAll (before ++ rest), m = ⟨before.length, stop⟩ ∨
      m.start < before.length ∧ before.length < m.stop.offset := by
  have hfound := exists_mem_findAll_go [] before [] h (.inl (Nat.zero_le _))
  exact hfound

/-- The same at the beginning of a line, where the pattern reads what follows. -/
theorem exists_mem_findAll_of_lineStart (hp : p.isPlainFromLineStart = true)
    (hline : before.getLast?.all (· == '\n') = true) {a : List (List Char)} (h : p.Reads s a)
    (tail : List Char) : ∃ stop, p.matchAt (.after before (s ++ tail)) = some stop ∧
      ∃ m ∈ p.findAll (before ++ (s ++ tail)), m = ⟨before.length, stop⟩ ∨
        m.start < before.length ∧ before.length < m.stop.offset := by
  have hcur : (Cursor.after before (s ++ tail)).atLineStart = true := by
    rw [atLineStart_after]
    exact hline
  obtain ⟨stop, hstop⟩ := Option.isSome_iff_exists.mp
    (isSome_runWith_of_lineStart hp hcur h rfl fun next _ => (rfl : (some next).isSome = true))
  exact ⟨stop, hstop, exists_mem_findAll hstop⟩

end Vicinity.Text.Pattern
