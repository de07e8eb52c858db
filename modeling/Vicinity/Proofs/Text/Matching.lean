import Vicinity.Text.Pattern
import Mathlib.Data.List.Basic

/-!
# What patterns read

A relation says which texts a pattern reads, one rule for each way of matching it and without any order
of preference. A match found by the search reads such a text; and a text that a pattern reads is found,
if the pattern asks nothing of the neighbouring characters.

## What is proved

* `exists_reads_of_runWith`: what has been matched is a text that the pattern reads, with the captures
  that go with it.
* `isSome_runWith`: a text that the pattern reads is matched, if what comes after it is accepted.
* `exists_place_of_mem_findAll`, `exists_reads_of_mem_findAll`: where in a text a match stands, and what
  it reads there.
-/

namespace Vicinity.Text

namespace Cursor

/-- One place lies after another, with a text between them in which some texts have been captured. -/
structure Past (cur next : Cursor) (s : List Char) (captured : List (List Char)) : Prop where
  rest_eq : cur.rest = s ++ next.rest
  before_eq : next.before = s.getLast?.or cur.before
  offset_eq : next.offset = cur.offset + s.length
  captured_eq : next.captured = captured.reverse ++ cur.captured

theorem Past.refl (cur : Cursor) : cur.Past cur [] [] := ⟨rfl, rfl, rfl, rfl⟩

theorem Past.trans {cur mid next : Cursor} {s t : List Char} {a b : List (List Char)}
    (h : cur.Past mid s a) (h' : mid.Past next t b) : cur.Past next (s ++ t) (a ++ b) := by
  refine ⟨?_, ?_, ?_, ?_⟩
  · rw [h.rest_eq, h'.rest_eq, List.append_assoc]
  · rw [h'.before_eq, h.before_eq, List.getLast?_append, Option.or_assoc]
  · rw [h'.offset_eq, h.offset_eq, List.length_append, Nat.add_assoc]
  · rw [h'.captured_eq, h.captured_eq, List.reverse_append, List.append_assoc]

theorem past_step {cur : Cursor} {c : Char} {rest : List Char} (h : cur.rest = c :: rest) :
    cur.Past (cur.step c rest) [c] [] := ⟨h, rfl, rfl, rfl⟩

/-- The place between two parts of a text, at which nothing has been captured. -/
def after (before rest : List Char) : Cursor := ⟨before.getLast?, rest, before.length, []⟩

theorem step_after (before : List Char) (c : Char) (rest : List Char) :
    (after before (c :: rest)).step c rest = after (before ++ [c]) rest := by
  simp [step, after]

end Cursor

namespace Pattern

/-- The texts that a pattern reads, each with what is captured from it, in order. A condition on the
neighbours of a place reads nothing. -/
inductive Reads : Pattern → List Char → List (List Char) → Prop where
  | nothing : Reads .nothing [] []
  | one {accepts : Char → Bool} {c : Char} (h : accepts c = true) : Reads (.one accepts) [c] []
  | run {least : Nat} {accepts : Char → Bool} {s : List Char} (length : least ≤ s.length)
      (h : ∀ c ∈ s, accepts c = true) : Reads (.run least accepts) s []
  | lineStart : Reads .lineStart [] []
  | wordEdge : Reads .wordEdge [] []
  | notAfter (accepts : Char → Bool) : Reads (.notAfter accepts) [] []
  | both {p q : Pattern} {s t : List Char} {a b : List (List Char)} (hp : Reads p s a)
      (hq : Reads q t b) : Reads (.both p q) (s ++ t) (a ++ b)
  | first {p : Pattern} (q : Pattern) {s : List Char} {a : List (List Char)} (hp : Reads p s a) :
      Reads (.either p q) s a
  | second (p : Pattern) {q : Pattern} {s : List Char} {a : List (List Char)} (hq : Reads q s a) :
      Reads (.either p q) s a
  | none (p : Pattern) : Reads (.many p) [] []
  | more {p : Pattern} {s t : List Char} {a b : List (List Char)} (hp : Reads p s a)
      (hmore : Reads (.many p) t b) : Reads (.many p) (s ++ t) (a ++ b)
  | capture {p : Pattern} {s : List Char} {a : List (List Char)} (hp : Reads p s a) :
      Reads (.capture p) s (a ++ [s])

/-! ### Reading composed patterns -/

section

variable {p q : Pattern} {s : List Char} {a : List (List Char)}

theorem reads_append : (p ++ q).Reads s a ↔
    ∃ t u b c, s = t ++ u ∧ a = b ++ c ∧ p.Reads t b ∧ q.Reads u c := by
  constructor
  · intro h
    cases h with
    | both hp hq => exact ⟨_, _, _, _, rfl, rfl, hp, hq⟩
  · rintro ⟨t, u, b, c, rfl, rfl, hp, hq⟩
    exact .both hp hq

theorem reads_either : (Pattern.either p q).Reads s a ↔ p.Reads s a ∨ q.Reads s a := by
  constructor
  · intro h
    cases h with
    | first _ hp => exact .inl hp
    | second _ hq => exact .inr hq
  · rintro (h | h)
    · exact .first q h
    · exact .second p h

theorem reads_opt : (opt p).Reads s a ↔ p.Reads s a ∨ s = [] ∧ a = [] := by
  rw [opt, reads_either]
  refine or_congr_right ⟨?_, ?_⟩
  · rintro ⟨⟩
    exact ⟨rfl, rfl⟩
  · rintro ⟨rfl, rfl⟩
    exact .nothing

theorem reads_run {least : Nat} {accepts : Char → Bool} : (Pattern.run least accepts).Reads s a ↔
    least ≤ s.length ∧ (∀ c ∈ s, accepts c = true) ∧ a = [] := by
  constructor
  · intro h
    cases h with
    | run hlength hs => exact ⟨hlength, hs, rfl⟩
  · rintro ⟨hlength, hs, rfl⟩
    exact .run hlength hs

theorem reads_capture : (Pattern.capture p).Reads s a ↔ ∃ b, p.Reads s b ∧ a = b ++ [s] := by
  constructor
  · intro h
    cases h with
    | capture hp => exact ⟨_, hp, rfl⟩
  · rintro ⟨b, h, rfl⟩
    exact .capture h

theorem reads_lineStart : Pattern.lineStart.Reads s a ↔ s = [] ∧ a = [] := by
  constructor
  · rintro ⟨⟩
    exact ⟨rfl, rfl⟩
  · rintro ⟨rfl, rfl⟩
    exact .lineStart

theorem reads_text {word : String} : (text word).Reads s a ↔ s = word.toList ∧ a = [] := by
  rw [text]
  induction word.toList generalizing s a with
  | nil =>
    constructor
    · rintro ⟨⟩
      exact ⟨rfl, rfl⟩
    · rintro ⟨rfl, rfl⟩
      exact .nothing
  | cons c word ih =>
    constructor
    · intro h
      obtain ⟨t, u, b, d, rfl, rfl, hone, hrest⟩ := reads_append.mp h
      obtain ⟨rfl, rfl⟩ := ih.mp hrest
      cases hone with
      | one hc => exact ⟨congrArg (· :: _) (beq_iff_eq.mp hc), rfl⟩
    · rintro ⟨rfl, rfl⟩
      exact reads_append.mpr
        ⟨[c], word, [], [], rfl, rfl, .one (beq_self_eq_true c), ih.mpr ⟨rfl, rfl⟩⟩

end

/-- The largest number of captures in a reading; none if there is no bound, as where a repeated pattern
captures. -/
def captureBound : Pattern → Option Nat
  | .nothing | .one _ | .run _ _ | .lineStart | .wordEdge | .notAfter _ => some 0
  | .both p q => p.captureBound.bind fun m => q.captureBound.map (m + ·)
  | .either p q => p.captureBound.bind fun m => q.captureBound.map (max m)
  | .many p => if p.captureBound = some 0 then some 0 else none
  | .capture p => p.captureBound.map (· + 1)

theorem Reads.length_le {p : Pattern} {s : List Char} {a : List (List Char)} (h : p.Reads s a) {n : Nat}
    (hn : p.captureBound = some n) : a.length ≤ n := by
  induction h generalizing n with
  | nothing | one | run | lineStart | wordEdge | notAfter => exact Nat.zero_le n
  | both hp hq ihp ihq =>
    simp only [captureBound, Option.bind_eq_some_iff, Option.map_eq_some_iff] at hn
    obtain ⟨m, hm, m', hm', rfl⟩ := hn
    rw [List.length_append]
    exact Nat.add_le_add (ihp hm) (ihq hm')
  | first q hp ih =>
    simp only [captureBound, Option.bind_eq_some_iff, Option.map_eq_some_iff] at hn
    obtain ⟨m, hm, m', hm', rfl⟩ := hn
    exact Nat.le_trans (ih hm) (Nat.le_max_left m m')
  | second p hq ih =>
    simp only [captureBound, Option.bind_eq_some_iff, Option.map_eq_some_iff] at hn
    obtain ⟨m, hm, m', hm', rfl⟩ := hn
    exact Nat.le_trans (ih hm') (Nat.le_max_right m m')
  | none => exact Nat.zero_le n
  | more hp hmore ihp ihmore =>
    have hall := ihmore hn
    simp only [captureBound, Option.ite_none_right_eq_some, Option.some.injEq] at hn
    obtain ⟨hzero, rfl⟩ := hn
    have hone := ihp hzero
    rw [List.length_append]
    omega
  | capture hp ih =>
    simp only [captureBound, Option.map_eq_some_iff] at hn
    obtain ⟨m, hm, rfl⟩ := hn
    rw [List.length_append, List.length_singleton]
    exact Nat.add_le_add_right (ih hm) 1

/-- Whether no capture of a pattern lies in another one. -/
def capturesApart : Pattern → Bool
  | .nothing | .one _ | .run _ _ | .lineStart | .wordEdge | .notAfter _ => true
  | .both p q | .either p q => p.capturesApart && q.capturesApart
  | .many p => p.capturesApart
  | .capture p => p.captureBound == some 0

/-- What is captured apart is no longer than what is read. -/
theorem Reads.length_captured_le {p : Pattern} {s : List Char} {a : List (List Char)} (h : p.Reads s a)
    (hp : p.capturesApart = true) : a.flatten.length ≤ s.length := by
  induction h with
  | nothing | one | run | lineStart | wordEdge | notAfter | none => exact Nat.zero_le _
  | both hp hq ihp ihq =>
    obtain ⟨hfirst, hsecond⟩ := Bool.and_eq_true_iff.mp hp
    rw [List.flatten_append, List.length_append, List.length_append]
    exact Nat.add_le_add (ihp hfirst) (ihq hsecond)
  | first q hp ih => exact ih (Bool.and_eq_true_iff.mp hp).1
  | second p hq ih => exact ih (Bool.and_eq_true_iff.mp hp).2
  | more hp hmore ihp ihmore =>
    rw [List.flatten_append, List.length_append, List.length_append]
    exact Nat.add_le_add (ihp hp) (ihmore hp)
  | capture hbody ih =>
    have hnone := hbody.length_le (beq_iff_eq.mp hp)
    rw [List.eq_nil_of_length_eq_zero (Nat.le_zero.mp hnone)]
    simp

/-! ### A match reads a text -/

variable {α : Type} {k : Cursor → Option α} {cur : Cursor} {answer : α}

theorem exists_of_firstOf {places : List Cursor} (h : firstOf k places = some answer) :
    ∃ next ∈ places, k next = some answer := by
  induction places with
  | nil => cases h
  | cons place more ih =>
    unfold firstOf at h
    cases hk : k place with
    | some found =>
      rw [hk] at h
      exact ⟨place, List.mem_cons_self, hk.trans h⟩
    | none =>
      rw [hk] at h
      obtain ⟨next, hnext, hanswer⟩ := ih h
      exact ⟨next, List.mem_cons_of_mem _ hnext, hanswer⟩

theorem past_of_mem_reachable_go {accepts : Char → Bool} {acc : List Cursor} {next : Cursor}
    (h : next ∈ reachable.go accepts cur.rest cur acc) :
    next ∈ acc ∨ ∃ s, (∀ c ∈ s, accepts c = true) ∧ cur.Past next s [] := by
  generalize hrest : cur.rest = rest at h
  induction rest generalizing cur acc with
  | nil =>
    rcases List.mem_cons.mp h with rfl | h
    · exact .inr ⟨[], by simp, .refl _⟩
    · exact .inl h
  | cons c rest ih =>
    have hhere : next = cur → ∃ s, (∀ c ∈ s, accepts c = true) ∧ cur.Past next s [] := by
      rintro rfl
      exact ⟨[], by simp, .refl _⟩
    unfold reachable.go at h
    split at h
    · rename_i hc
      rcases ih rfl h with hacc | ⟨s, hs, hpast⟩
      · rcases List.mem_cons.mp hacc with heq | hacc
        · exact .inr (hhere heq)
        · exact .inl hacc
      · refine .inr ⟨c :: s, ?_, (Cursor.past_step hrest).trans hpast⟩
        simpa [hc] using hs
    · rcases List.mem_cons.mp h with heq | hacc
      · exact .inr (hhere heq)
      · exact .inl hacc

theorem exists_reads_of_repeated {p : Pattern}
    (hp : ∀ {k : Cursor → Option α} {cur : Cursor}, p.runWith cur k = some answer →
      ∃ s a next, p.Reads s a ∧ cur.Past next s a ∧ k next = some answer)
    {limit : Nat} (h : repeated p.runWith limit cur k = some answer) :
    ∃ s a next, (many p).Reads s a ∧ cur.Past next s a ∧ k next = some answer := by
  induction limit generalizing cur with
  | zero => exact ⟨[], [], cur, .none p, .refl cur, h⟩
  | succ limit ih =>
    unfold repeated at h
    split at h
    · rename_i found hfound
      cases h
      obtain ⟨s, a, mid, hs, hmid, hrest⟩ := hp hfound
      obtain ⟨t, b, next, ht, hnext, hanswer⟩ := ih hrest
      exact ⟨s ++ t, a ++ b, next, .more hs ht, hmid.trans hnext, hanswer⟩
    · exact ⟨[], [], cur, .none p, .refl cur, h⟩

/-- **What has been matched is a text that the pattern reads**, and the place after it has been
accepted. -/
theorem exists_reads_of_runWith {p : Pattern} (h : p.runWith cur k = some answer) :
    ∃ s a next, p.Reads s a ∧ cur.Past next s a ∧ k next = some answer := by
  induction p generalizing cur k with
  | nothing => exact ⟨[], [], cur, .nothing, .refl cur, h⟩
  | one accepts =>
    simp only [runWith] at h
    split at h
    · rename_i c rest hrest
      split at h
      · rename_i hc
        exact ⟨[c], [], cur.step c rest, .one hc, Cursor.past_step hrest, h⟩
      · cases h
    · cases h
  | run least accepts =>
    simp only [runWith] at h
    obtain ⟨next, hnext, hanswer⟩ := exists_of_firstOf h
    split at hanswer
    · cases hanswer
    · rename_i hleast
      obtain hnil | ⟨s, hs, hpast⟩ := past_of_mem_reachable_go hnext
      · cases hnil
      · rw [hpast.offset_eq] at hleast
        exact ⟨s, [], next, .run (by omega) hs, hpast, hanswer⟩
  | lineStart =>
    simp only [runWith] at h
    split at h
    · exact ⟨[], [], cur, .lineStart, .refl cur, h⟩
    · cases h
  | wordEdge =>
    simp only [runWith] at h
    split at h
    · exact ⟨[], [], cur, .wordEdge, .refl cur, h⟩
    · cases h
  | notAfter accepts =>
    simp only [runWith] at h
    split at h
    · split at h
      · cases h
      · exact ⟨[], [], cur, .notAfter accepts, .refl cur, h⟩
    · exact ⟨[], [], cur, .notAfter accepts, .refl cur, h⟩
  | both p q ihp ihq =>
    obtain ⟨s, a, mid, hs, hmid, hrest⟩ := ihp h
    obtain ⟨t, b, next, ht, hnext, hanswer⟩ := ihq hrest
    exact ⟨s ++ t, a ++ b, next, .both hs ht, hmid.trans hnext, hanswer⟩
  | either p q ihp ihq =>
    simp only [runWith] at h
    split at h
    · rename_i found hfound
      cases h
      obtain ⟨s, a, next, hs, hnext, hanswer⟩ := ihp hfound
      exact ⟨s, a, next, .first q hs, hnext, hanswer⟩
    · obtain ⟨s, a, next, hs, hnext, hanswer⟩ := ihq h
      exact ⟨s, a, next, .second p hs, hnext, hanswer⟩
  | many p ih =>
    simp only [runWith] at h
    split at h
    · rename_i found hfound
      cases h
      obtain ⟨s, a, mid, hs, hmid, hrest⟩ := ih hfound
      obtain ⟨t, b, next, ht, hnext, hanswer⟩ := exists_reads_of_repeated ih hrest
      exact ⟨s ++ t, a ++ b, next, .more hs ht, hmid.trans hnext, hanswer⟩
    · exact ⟨[], [], cur, .none p, .refl cur, h⟩
  | capture p ih =>
    obtain ⟨s, a, next, hs, hnext, hanswer⟩ := ih h
    have htaken : cur.rest.take (next.offset - cur.offset) = s := by
      rw [hnext.offset_eq, Nat.add_sub_cancel_left, hnext.rest_eq, List.take_left]
    rw [htaken] at hanswer
    refine ⟨s, a ++ [s], { next with captured := s :: next.captured }, .capture hs,
      ⟨hnext.rest_eq, hnext.before_eq, hnext.offset_eq, ?_⟩, hanswer⟩
    rw [List.reverse_append, List.reverse_singleton, List.append_assoc, ← hnext.captured_eq]
    rfl

/-! ### A text that is read is matched -/

/-- Whether a pattern only looks at the characters that it reads. -/
def isPlain : Pattern → Bool
  | .nothing | .one _ | .run _ _ => true
  | .lineStart | .wordEdge | .notAfter _ => false
  | .both p q | .either p q => p.isPlain && q.isPlain
  | .many p | .capture p => p.isPlain

theorem isSome_firstOf {places : List Cursor} {next : Cursor} (hmem : next ∈ places)
    (h : (k next).isSome) : (firstOf k places).isSome := by
  induction places with
  | nil => cases hmem
  | cons place more ih =>
    unfold firstOf
    cases hk : k place with
    | some found => rfl
    | none =>
      rcases List.mem_cons.mp hmem with rfl | hmem
      · rw [hk] at h
        cases h
      · exact ih hmem

theorem mem_reachable_go_of_mem {accepts : Char → Bool} {chars : List Char} {acc : List Cursor}
    {next : Cursor} (h : next ∈ acc) : next ∈ reachable.go accepts chars cur acc := by
  induction chars generalizing cur acc with
  | nil => exact List.mem_cons_of_mem _ h
  | cons c rest ih =>
    unfold reachable.go
    split
    · exact ih (List.mem_cons_of_mem _ h)
    · exact List.mem_cons_of_mem _ h

theorem exists_mem_reachable_go {accepts : Char → Bool} {s tail : List Char}
    (hs : ∀ c ∈ s, accepts c = true) (hcur : cur.rest = s ++ tail) (acc : List Cursor) :
    ∃ next ∈ reachable.go accepts cur.rest cur acc,
      next.offset = cur.offset + s.length ∧ next.rest = tail := by
  induction s generalizing cur acc with
  | nil =>
    refine ⟨cur, ?_, rfl, hcur⟩
    cases cur.rest with
    | nil => exact List.mem_cons_self
    | cons c rest =>
      unfold reachable.go
      split
      · exact mem_reachable_go_of_mem List.mem_cons_self
      · exact List.mem_cons_self
  | cons c s ih =>
    obtain ⟨hc, hs⟩ := List.forall_mem_cons.mp hs
    obtain ⟨next, hnext, hoffset, hrest⟩ :=
      ih hs (show (cur.step c (s ++ tail)).rest = s ++ tail from rfl) (cur :: acc)
    refine ⟨next, ?_, ?_, hrest⟩
    · rw [hcur, List.cons_append]
      unfold reachable.go
      rw [if_pos hc]
      exact hnext
    · rw [hoffset, List.length_cons]
      show cur.offset + 1 + s.length = _
      omega

/-- A text that a pattern reads by repetition is matched by repeating its matcher, if that may be
repeated as often as the text has characters. -/
theorem isSome_repeated {p : Pattern}
    (hp : ∀ {s tail : List Char} {a : List (List Char)} {cur : Cursor} {k : Cursor → Option α},
      p.Reads s a → cur.rest = s ++ tail → (∀ next : Cursor, next.rest = tail → (k next).isSome) →
      (p.runWith cur k).isSome)
    {s tail : List Char} {a : List (List Char)} (h : (many p).Reads s a) {limit : Nat}
    (hlimit : s.length ≤ limit) (hcur : cur.rest = s ++ tail)
    (hk : ∀ next : Cursor, next.rest = tail → (k next).isSome) :
    (repeated p.runWith limit cur k).isSome := by
  generalize hmany : many p = pattern at h
  induction h generalizing cur limit with
  | none =>
    cases limit with
    | zero => exact hk cur hcur
    | succ limit =>
      unfold repeated
      split
      · rfl
      · exact hk cur hcur
  | @more q s t a b hone hmore ihone ihmore =>
    cases hmany
    -- A repetition that reads nothing can be left out, so each of the others has a character.
    cases s with
    | nil => exact ihmore hlimit hcur rfl
    | cons c s =>
      cases limit with
      | zero => simp at hlimit
      | succ limit =>
        have hshort : t.length ≤ limit := by
          simp only [List.cons_append, List.length_cons, List.length_append] at hlimit
          omega
        rw [List.append_assoc] at hcur
        obtain ⟨found, hfound⟩ := Option.isSome_iff_exists.mp
          (hp hone hcur fun next hnext => ihmore hshort hnext rfl)
        simp only [repeated, hfound, Option.isSome_some]
  | _ => cases hmany

/-- **A text that a plain pattern reads is matched**, if every place before the rest of the text is
accepted. -/
theorem isSome_runWith {p : Pattern} (hp : p.isPlain) {s tail : List Char} {a : List (List Char)}
    (h : p.Reads s a) (hcur : cur.rest = s ++ tail)
    (hk : ∀ next : Cursor, next.rest = tail → (k next).isSome) : (p.runWith cur k).isSome := by
  induction p generalizing s a cur k tail with
  | nothing =>
    cases h
    exact hk cur hcur
  | one accepts =>
    cases h with
    | one hc =>
      rw [List.singleton_append] at hcur
      simp only [runWith, hcur, hc]
      exact hk _ rfl
  | run least accepts =>
    obtain ⟨hlength, hs, -⟩ := reads_run.mp h
    obtain ⟨next, hnext, hoffset, hrest⟩ := exists_mem_reachable_go hs hcur []
    refine isSome_firstOf hnext ?_
    rw [if_neg (by omega)]
    exact hk next hrest
  | lineStart => cases hp
  | wordEdge => cases hp
  | notAfter => cases hp
  | both p q ihp ihq =>
    obtain ⟨hplain, hplain'⟩ := Bool.and_eq_true_iff.mp hp
    obtain ⟨t, u, _, _, rfl, -, hfirst, hsecond⟩ := reads_append.mp h
    -- What the first pattern leaves begins with the text of the second.
    rw [List.append_assoc] at hcur
    exact ihp hplain hfirst hcur fun next hnext => ihq hplain' hsecond hnext hk
  | either p q ihp ihq =>
    obtain ⟨hplain, hplain'⟩ := Bool.and_eq_true_iff.mp hp
    simp only [runWith]
    rcases reads_either.mp h with hfirst | hsecond
    · obtain ⟨found, hfound⟩ := Option.isSome_iff_exists.mp (ihp hplain hfirst hcur hk)
      rw [hfound]
      rfl
    · cases p.runWith cur k with
      | some found => rfl
      | none => exact ihq hplain' hsecond hcur hk
  | many p ih =>
    simp only [runWith]
    cases h with
    | none =>
      split
      · rfl
      · exact hk cur hcur
    | @more _ s t a b hone hmore =>
      rw [List.append_assoc] at hcur
      obtain ⟨found, hfound⟩ := Option.isSome_iff_exists.mp <|
        ih hp (k := fun next => repeated p.runWith next.rest.length next k) hone hcur fun next hnext =>
          isSome_repeated (ih hp) hmore (by rw [hnext, List.length_append]; omega) hnext hk
      rw [hfound]
      rfl
  | capture p ih =>
    obtain ⟨b, hbody, -⟩ := reads_capture.mp h
    exact ih hp hbody hcur fun next hnext => hk _ hnext

/-- A pattern reads a beginning of a text. -/
def Starts (p : Pattern) (s : List Char) : Prop := ∃ t a tail, p.Reads t a ∧ s = t ++ tail

theorem Starts.of_append {p q : Pattern} {s : List Char} (h : (p ++ q).Starts s) : p.Starts s := by
  obtain ⟨t, a, tail, hreads, rfl⟩ := h
  obtain ⟨first, second, b, c, rfl, -, hp, -⟩ := reads_append.mp hreads
  exact ⟨first, b, second ++ tail, hp, List.append_assoc ..⟩

theorem Starts.mono {p : Pattern} {s t : List Char} (h : p.Starts s) (hbegins : s <+: t) :
    p.Starts t := by
  obtain ⟨front, a, tail, hreads, rfl⟩ := h
  obtain ⟨more, rfl⟩ := hbegins
  exact ⟨front, a, tail ++ more, hreads, List.append_assoc ..⟩

/-- A plain pattern matches at the beginning of a text exactly if it reads a beginning of it. -/
theorem matchesStart_iff {p : Pattern} (hp : p.isPlain) {s : List Char} :
    p.matchesStart s = true ↔ p.Starts s := by
  constructor
  · intro h
    obtain ⟨stop, hstop⟩ := Option.isSome_iff_exists.mp h
    obtain ⟨t, a, next, hreads, hpast, -⟩ := exists_reads_of_runWith hstop
    exact ⟨t, a, next.rest, hreads, hpast.rest_eq⟩
  · rintro ⟨t, a, tail, hreads, rfl⟩
    exact isSome_runWith hp hreads rfl fun next _ => rfl

/-! ### Matches in a text -/

/-- What is found stands at a place in the text. -/
theorem exists_place_of_mem_findAll_go {p : Pattern} (before : List Char) {chars : List Char}
    {resume : Nat} {acc : List Match} {m : Match}
    (h : m ∈ findAll.go p chars (.after before chars) resume acc) :
    m ∈ acc ∨ ∃ s rest stop, chars = s ++ rest ∧
      p.matchAt (.after (before ++ s) rest) = some stop ∧ m = ⟨(before ++ s).length, stop⟩ := by
  induction chars generalizing before resume acc with
  | nil =>
    unfold findAll.go at h
    split at h
    · rename_i stop hstop
      rw [List.mem_reverse] at h
      rcases List.mem_cons.mp h with rfl | h
      · exact .inr ⟨[], [], stop, rfl, by rwa [List.append_nil], by rw [List.append_nil]; rfl⟩
      · exact .inl h
    · exact .inl (List.mem_reverse.mp h)
  | cons c rest ih =>
    have hlater : ∀ {resume acc}, m ∈ findAll.go p rest (.after (before ++ [c]) rest) resume acc →
        m ∈ acc ∨ ∃ s tail stop, c :: rest = s ++ tail ∧
          p.matchAt (.after (before ++ s) tail) = some stop ∧ m = ⟨(before ++ s).length, stop⟩ := by
      intro resume acc h
      refine (ih _ h).imp_right ?_
      rintro ⟨s, tail, stop, rfl, hstop, rfl⟩
      refine ⟨c :: s, tail, stop, rfl, ?_, ?_⟩
      · rwa [List.append_assoc] at hstop
      · rw [List.append_assoc]
        rfl
    unfold findAll.go at h
    rw [Cursor.step_after] at h
    split at h
    · exact hlater h
    · split at h
      · rename_i stop hstop
        rcases hlater h with hacc | hfound
        · rcases List.mem_cons.mp hacc with rfl | hacc
          · exact .inr ⟨[], c :: rest, stop, rfl, by rwa [List.append_nil],
              by rw [List.append_nil]; rfl⟩
          · exact .inl hacc
        · exact .inr hfound
      · exact hlater h

/-- **Where a match stands.** -/
theorem exists_place_of_mem_findAll {p : Pattern} {source : List Char} {m : Match}
    (h : m ∈ p.findAll source) :
    ∃ before rest, source = before ++ rest ∧ m.start = before.length ∧
      p.matchAt (.after before rest) = some m.stop := by
  obtain hnil | ⟨before, rest, stop, rfl, hstop, rfl⟩ :=
    exists_place_of_mem_findAll_go [] h
  · cases hnil
  · exact ⟨before, rest, rfl, rfl, hstop⟩

/-- No two matches begin at the same place. -/
theorem eq_of_mem_findAll {p : Pattern} {source : List Char} {m m' : Match} (h : m ∈ p.findAll source)
    (h' : m' ∈ p.findAll source) (hstart : m.start = m'.start) : m = m' := by
  obtain ⟨before, rest, rfl, hplace, hmatch⟩ := exists_place_of_mem_findAll h
  obtain ⟨before', rest', hsource, hplace', hmatch'⟩ := exists_place_of_mem_findAll h'
  obtain ⟨rfl, rfl⟩ := List.append_inj hsource (hplace.symm.trans (hstart.trans hplace'))
  rw [hmatch, Option.some.injEq] at hmatch'
  cases m
  cases m'
  rw [Match.mk.injEq]
  exact ⟨hstart, hmatch'⟩

/-- What a match at a place reads. -/
theorem exists_reads_of_matchAt {p : Pattern} {before rest : List Char} {stop : Cursor}
    (h : p.matchAt (.after before rest) = some stop) :
    ∃ s, p.Reads s stop.captured.reverse ∧ rest = s ++ stop.rest ∧
      stop.offset = (before ++ s).length ∧ stop.before = (before ++ s).getLast? := by
  obtain ⟨s, a, next, hreads, hpast, hanswer⟩ := exists_reads_of_runWith h
  cases hanswer
  refine ⟨s, ?_, hpast.rest_eq, ?_, ?_⟩
  · rw [hpast.captured_eq]
    simpa [Cursor.after] using hreads
  · rw [List.length_append]
    exact hpast.offset_eq
  · rw [hpast.before_eq, List.getLast?_append]
    rfl

/-- **Where a match stands, and what it reads.** -/
theorem exists_reads_of_mem_findAll {p : Pattern} {source : List Char} {m : Match}
    (h : m ∈ p.findAll source) :
    ∃ before s, p.Reads s m.captured ∧ source = before ++ (s ++ m.stop.rest) ∧
      m.start = before.length ∧ m.stop.offset = (before ++ s).length := by
  obtain ⟨before, rest, rfl, hstart, hstop⟩ := exists_place_of_mem_findAll h
  obtain ⟨s, hreads, hrest, hoffset, -⟩ := exists_reads_of_matchAt hstop
  exact ⟨before, s, hreads, by rw [← hrest], hstart, hoffset⟩

end Pattern

end Vicinity.Text
