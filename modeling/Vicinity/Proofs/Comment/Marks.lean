import Vicinity.Proofs.Comment.Replacing
import Vicinity.Proofs.Comment.Tidying

/-!
# Comments of the brace family

A comment of the brace family begins where two slashes stand, unless a backslash or a colon comes before
them, and where a slash and a star stand with a star and a slash somewhere after them. Blanks have no part
in this, so that tidying a text neither makes comments nor takes any away.

## What is proved

* `braceComment_eq_none_iff`, `exists_of_braceComment`: where a comment begins, and what it takes.
* `cleans`: the scan, as a relation with a rule for each thing that it may come upon.
* `commentFree_iff`: a text has no comment if it has no such marks.
* `commentFree_tidy`: tidying makes no difference to that.
* `strip_brace_eq_self_iff`: the texts in which there is nothing to take out.
-/

namespace Vicinity.Text

/-- A text is not found exactly if it stands nowhere. -/
theorem find_eq_none_iff_infix {needle s : List Char} : find needle s = none ↔ ¬needle <:+: s := by
  rw [find_eq_none_iff]
  constructor
  · rintro h ⟨front, rest, rfl⟩
    refine h front.length ?_
    rw [List.append_assoc, List.drop_left]
    exact List.prefix_append needle rest
  · rintro h i ⟨rest, hrest⟩
    exact h ⟨s.take i, rest, by rw [List.append_assoc, hrest, List.take_append_drop]⟩

/-- Two characters stand next to each other in a text with another character inside: before or after
that. -/
theorem append_cons_eq_pair_iff {s t front rest : List Char} {c p q : Char} (hp : c ≠ p) (hq : c ≠ q) :
    s ++ c :: t = front ++ p :: q :: rest ↔
      (∃ after, s = front ++ p :: q :: after ∧ rest = after ++ c :: t) ∨
        ∃ before, t = before ++ p :: q :: rest ∧ front = s ++ c :: before := by
  constructor
  · intro h
    rcases List.append_eq_append_iff.mp h with ⟨_ | ⟨d, before⟩, hfront, ht⟩ | ⟨mid, hs, hmid⟩
    · exact absurd (List.cons.inj ht).1 hp
    · rw [List.cons_append, List.cons.injEq] at ht
      obtain ⟨rfl, ht⟩ := ht
      exact .inr ⟨before, ht, hfront⟩
    · rcases mid with _ | ⟨a, _ | ⟨b, after⟩⟩
      · exact absurd (List.cons.inj hmid).1.symm hp
      · exact absurd (List.cons.inj (List.cons.inj hmid).2).1.symm hq
      · simp only [List.cons_append, List.cons.injEq] at hmid
        obtain ⟨rfl, rfl, hmid⟩ := hmid
        exact .inl ⟨after, hs, hmid⟩
  · rintro (⟨after, rfl, rfl⟩ | ⟨before, rfl, rfl⟩)
    · simp
    · simp

end Vicinity.Text

namespace Vicinity.Comment

open Vicinity.Text

/-! ### Where a comment begins -/

/-- **Where no comment begins**: no block is closed, no two slashes come after a character that lets them
be a comment, and none come at the beginning of a line. -/
theorem braceComment_eq_none_iff {before : Option Char} {c : Char} {s : List Char} :
    braceComment before (c :: s) = none ↔
      (∀ rest, c = '/' → s = '*' :: rest → ¬['*', '/'] <:+: rest) ∧
        (∀ rest, s = '/' :: '/' :: rest → c = '\\' ∨ c = ':') ∧
          (∀ rest, c = '/' → s = '/' :: rest → isLineStart before = false) := by
  unfold braceComment
  split
  · rename_i rest hblock
    obtain ⟨rfl, rfl⟩ : c = '/' ∧ s = '*' :: rest := by simpa using hblock
    rw [Option.map_eq_none_iff, find_eq_none_iff_infix]
    simp
  · rename_i hblock
    unfold lineComment
    split
    · rename_i rest hslashes
      obtain ⟨rfl, rfl⟩ : c = '/' ∧ s = '/' :: rest := by simpa using hslashes
      cases rest with
      | nil => simp
      | cons d rest => by_cases hd : d = '/' <;> simp [hd]
    · rename_i d rest hfirst hslashes
      obtain ⟨rfl, rfl⟩ : c = d ∧ s = '/' :: '/' :: rest := by simpa using hslashes
      have hc : c ≠ '/' := hfirst
      simp [hc, or_iff_not_imp_left]
    · rename_i hfirst hthird
      simp only [true_iff]
      refine ⟨fun rest hc hs => ?_, fun rest hs => ?_, fun rest hc hs => ?_⟩
      · exact absurd (by rw [hc, hs]) (hblock rest)
      · exact absurd (by rw [hs]) (hthird c rest)
      · exact absurd (by rw [hc, hs]) (hfirst rest)

/-- `Takes before taken kept left`: a comment that begins after the character `before` takes some
characters, of which some are kept, and the scan goes on with what is left. -/
inductive Takes (before : Option Char) : List Char → List Char → List Char → Prop where
  /-- A block. -/
  | block (body left : List Char) : Takes before ('/' :: '*' :: (body ++ ['*', '/'])) [] left
  /-- The rest of a line that begins with two slashes. -/
  | wholeLine {body left : List Char} (hstart : isLineStart before = true)
      (hleft : ∀ c ∈ left.head?, c = '\n') : Takes before ('/' :: '/' :: body) [] left
  /-- The rest of a line and the character before it, which is kept. -/
  | line (c : Char) {body left : List Char} (hleft : ∀ c ∈ left.head?, c = '\n') :
      Takes before (c :: '/' :: '/' :: body) [c] left

theorem Takes.ne_nil {before : Option Char} {taken kept left : List Char}
    (h : Takes before taken kept left) : taken ≠ [] := by
  cases h <;> exact List.cons_ne_nil _ _

/-- **What a comment takes.** -/
theorem exists_of_braceComment {before : Option Char} {s : List Char} {found : Found}
    (h : braceComment before s = some found) :
    ∃ taken kept left, Takes before taken kept left ∧ s = taken ++ left ∧
      found = ⟨kept, taken.length⟩ := by
  unfold braceComment at h
  split at h
  · rename_i rest
    obtain ⟨i, hfind, rfl⟩ := Option.map_eq_some_iff.mp h
    obtain ⟨left, hleft⟩ := (find_eq_some_iff.mp hfind).1
    have hrest : rest = rest.take i ++ ['*', '/'] ++ left := by
      rw [List.append_assoc, hleft, List.take_append_drop]
    have hi : (rest.take i).length = i := by
      have hlength := congrArg List.length hleft
      rw [List.length_append, List.length_drop] at hlength
      simp at hlength ⊢
      omega
    refine ⟨_, [], left, .block (rest.take i) left, ?_, ?_⟩
    · simpa using hrest
    · simp [hi]
  · unfold lineComment at h
    split at h
    · rename_i rest _
      split at h
      · rename_i hthird
        obtain ⟨rest, rfl⟩ := List.head?_eq_some_iff.mp hthird
        obtain ⟨body, tail, rfl, -, hlength, htail⟩ := line_split rest
        cases h
        refine ⟨'/' :: '/' :: '/' :: body, ['/'], tail, .line '/' htail, rfl, ?_⟩
        simp only [List.tail_cons, hlength, List.length_cons, Nat.add_comm, Nat.add_left_comm]
      · split at h
        · rename_i hstart
          obtain ⟨body, tail, rfl, -, hlength, htail⟩ := line_split rest
          cases h
          refine ⟨'/' :: '/' :: body, [], tail, .wholeLine hstart htail, rfl, ?_⟩
          simp only [hlength, List.length_cons, Nat.add_comm, Nat.add_left_comm]
        · cases h
    · rename_i c rest _ _
      split at h
      · cases h
      · obtain ⟨body, tail, rfl, -, hlength, htail⟩ := line_split rest
        cases h
        refine ⟨c :: '/' :: '/' :: body, [c], tail, .line c htail, rfl, ?_⟩
        simp only [hlength, List.length_cons, Nat.add_comm, Nat.add_left_comm]
    · cases h

/-- At the beginning of a line nothing keeps two slashes from being a comment. -/
theorem ne_of_isLineStart {before : Option Char} (h : isLineStart before = true) :
    ∀ c ∈ before, c ≠ '\\' ∧ c ≠ ':' := by
  intro c hc
  have hnewline : c = '\n' := by simpa [isLineStart, Option.mem_def.mp hc] using h
  subst hnewline
  decide

/-! ### The scan -/

/-- The scan as a relation: what becomes of a text that comes after the character `before`. -/
inductive Cleans : Option Char → List Char → List Char → Prop where
  /-- Nothing is left. -/
  | nil (before : Option Char) : Cleans before [] []
  /-- A character with which no comment begins is kept. -/
  | keep {before : Option Char} {c : Char} {s out : List Char}
      (hnone : braceComment before (c :: s) = none) (h : Cleans (some c) s out) :
      Cleans before (c :: s) (c :: out)
  /-- Of a comment what is to be kept of it is kept. -/
  | comment {before : Option Char} {taken kept left out : List Char}
      (htakes : Takes before taken kept left)
      (hfound : braceComment before (taken ++ left) = some ⟨kept, taken.length⟩)
      (h : Cleans taken.getLast? left out) : Cleans before (taken ++ left) (kept ++ out)

/-- **The scan does what the relation says.** -/
theorem cleans (before : Option Char) (s : List Char) : Cleans before s (cleaned braceComment before s) := by
  induction hlength : s.length using Nat.strongRecOn generalizing before s with
  | _ n ih =>
    cases hfound : braceComment before s with
    | some found =>
      obtain ⟨taken, kept, left, htakes, rfl, rfl⟩ := exists_of_braceComment hfound
      have hpos : 0 < taken.length := List.length_pos_iff.mpr htakes.ne_nil
      rw [List.length_append] at hlength
      rw [cleaned_of_some htakes.ne_nil hfound]
      exact .comment htakes hfound (ih left.length (by omega) taken.getLast? left rfl)
    | none =>
      cases s with
      | nil => exact .nil before
      | cons c s =>
        rw [List.length_cons] at hlength
        rw [cleaned_of_none hfound]
        exact .keep hfound (ih s.length (by omega) (some c) s rfl)

/-! ### Texts without comments -/

/-- No comment begins in a text that comes after the character `before`. -/
def CommentFreeAfter (before : Option Char) (s : List Char) : Prop :=
  ∀ front rest, s = front ++ rest → braceComment (front.getLast?.or before) rest = none

/-- No comment begins anywhere in the text. -/
def CommentFree (s : List Char) : Prop := CommentFreeAfter none s

theorem braceComment_nil (before : Option Char) : braceComment before [] = none := rfl

theorem commentFreeAfter_nil (before : Option Char) : CommentFreeAfter before [] := by
  intro front rest h
  obtain ⟨rfl, rfl⟩ := List.append_eq_nil_iff.mp h.symm
  exact braceComment_nil _

theorem commentFreeAfter_cons {before : Option Char} {c : Char} {s : List Char} :
    CommentFreeAfter before (c :: s) ↔
      braceComment before (c :: s) = none ∧ CommentFreeAfter (some c) s := by
  constructor
  · intro h
    refine ⟨h [] (c :: s) rfl, fun front rest hs => ?_⟩
    rw [← getLast?_cons_or c front before]
    exact h (c :: front) rest (by rw [hs, List.cons_append])
  · rintro ⟨hfirst, hmore⟩ (_ | ⟨d, front⟩) rest hs
    · obtain rfl : rest = c :: s := hs.symm
      exact hfirst
    · rw [List.cons_append, List.cons.injEq] at hs
      obtain ⟨rfl, hs⟩ := hs
      rw [getLast?_cons_or]
      exact hmore front rest hs

/-- Two slashes stand somewhere, and not right after a backslash or a colon. -/
def HasSlashes (s : List Char) : Prop :=
  ∃ front rest, s = front ++ '/' :: '/' :: rest ∧ ∀ c ∈ front.getLast?, c ≠ '\\' ∧ c ≠ ':'

/-- A slash and a star stand somewhere, and a star and a slash somewhere behind them. -/
def HasBlock (s : List Char) : Prop :=
  ∃ front rest, s = front ++ '/' :: '*' :: rest ∧ ['*', '/'] <:+: rest

/-- **A text without comments** is one without their marks. -/
theorem commentFree_iff {s : List Char} : CommentFree s ↔ ¬HasSlashes s ∧ ¬HasBlock s := by
  constructor
  · intro h
    refine ⟨?_, ?_⟩
    · rintro ⟨front, rest, rfl, hfront⟩
      rcases List.eq_nil_or_concat front with rfl | ⟨front, c, rfl⟩
      · have hnone := h [] ('/' :: '/' :: rest) rfl
        exact absurd ((braceComment_eq_none_iff.mp hnone).2.2 rest rfl rfl) (by decide)
      · rw [List.concat_eq_append] at h hfront
        have hnone := h front (c :: '/' :: '/' :: rest) (by simp)
        obtain ⟨hbackslash, hcolon⟩ := hfront c (by simp)
        rcases (braceComment_eq_none_iff.mp hnone).2.1 rest rfl with hc | hc
        · exact hbackslash hc
        · exact hcolon hc
    · rintro ⟨front, rest, rfl, hclosed⟩
      have hnone := h front ('/' :: '*' :: rest) rfl
      exact (braceComment_eq_none_iff.mp hnone).1 rest rfl rfl hclosed
  · rintro ⟨hslashes, hblock⟩ front (_ | ⟨c, rest⟩) rfl
    · exact braceComment_nil _
    · refine braceComment_eq_none_iff.mpr ⟨?_, ?_, ?_⟩
      · rintro rest rfl rfl hclosed
        exact hblock ⟨front, rest, rfl, hclosed⟩
      · rintro rest rfl
        by_contra hc
        rw [not_or] at hc
        refine hslashes ⟨front ++ [c], rest, by simp, fun d hd => ?_⟩
        obtain rfl : c = d := by simpa using hd
        exact hc
      · rintro rest rfl rfl
        by_contra hstart
        rw [Option.or_none, Bool.not_eq_false] at hstart
        exact hslashes ⟨front, rest, rfl, ne_of_isLineStart hstart⟩

/-! ### Blanks and comments -/

theorem ne_of_blank {c d : Char} (hc : isBlank c = true) (hd : isBlank d = false) : c ≠ d := by
  rintro rfl
  rw [hc] at hd
  cases hd

/-- Two slashes on either side of a blank. -/
theorem hasSlashes_append_cons_iff {s t : List Char} {c : Char} (hc : isBlank c = true) :
    HasSlashes (s ++ c :: t) ↔ HasSlashes s ∨ HasSlashes t := by
  have hslash : c ≠ '/' := ne_of_blank hc (by decide)
  constructor
  · rintro ⟨front, rest, h, hfront⟩
    rcases (append_cons_eq_pair_iff hslash hslash).mp h with ⟨after, hs, -⟩ | ⟨before, ht, rfl⟩
    · exact .inl ⟨front, after, hs, hfront⟩
    · refine .inr ⟨before, rest, ht, fun d hd => hfront d ?_⟩
      simp [List.getLast?_append, List.getLast?_cons, Option.mem_def.mp hd]
  · rintro (⟨front, rest, rfl, hfront⟩ | ⟨front, rest, rfl, hfront⟩)
    · exact ⟨front, rest ++ c :: t, by simp, hfront⟩
    · refine ⟨s ++ c :: front, rest, by simp, fun d hd => ?_⟩
      cases hlast : front.getLast? with
      | some e =>
        obtain rfl : e = d := by simpa [List.getLast?_append, List.getLast?_cons, hlast] using hd
        exact hfront e hlast
      | none =>
        obtain rfl : c = d := by simpa [List.getLast?_append, List.getLast?_cons, hlast] using hd
        exact ⟨ne_of_blank hc (by decide), ne_of_blank hc (by decide)⟩

/-- Two characters in a row, neither of them blank, on either side of a blank. -/
theorem pair_infix_append_cons_iff {s t : List Char} {c p q : Char} (hc : isBlank c = true)
    (hp : isBlank p = false) (hq : isBlank q = false) :
    [p, q] <:+: s ++ c :: t ↔ [p, q] <:+: s ∨ [p, q] <:+: t := by
  constructor
  · rintro ⟨front, rest, h⟩
    have hpair : s ++ c :: t = front ++ p :: q :: rest := by simpa using h.symm
    rcases (append_cons_eq_pair_iff (ne_of_blank hc hp) (ne_of_blank hc hq)).mp hpair with
      ⟨after, hs, -⟩ | ⟨before, ht, -⟩
    · exact .inl ⟨front, after, by simp [hs]⟩
    · exact .inr ⟨before, rest, by simp [ht]⟩
  · rintro (h | h)
    · exact h.trans (List.prefix_append s (c :: t)).isInfix
    · exact h.trans ((List.suffix_cons c t).trans (List.suffix_append s (c :: t))).isInfix

theorem opened_append_cons_iff {s t : List Char} {c : Char} (hc : isBlank c = true) :
    ['/', '*'] <:+: s ++ c :: t ↔ ['/', '*'] <:+: s ∨ ['/', '*'] <:+: t :=
  pair_infix_append_cons_iff hc (by decide) (by decide)

theorem closed_append_cons_iff {s t : List Char} {c : Char} (hc : isBlank c = true) :
    ['*', '/'] <:+: s ++ c :: t ↔ ['*', '/'] <:+: s ∨ ['*', '/'] <:+: t :=
  pair_infix_append_cons_iff hc (by decide) (by decide)

/-- A block on either side of a blank, or around it. -/
theorem hasBlock_append_cons_iff {s t : List Char} {c : Char} (hc : isBlank c = true) :
    HasBlock (s ++ c :: t) ↔
      HasBlock s ∨ HasBlock t ∨ (['/', '*'] <:+: s ∧ ['*', '/'] <:+: t) := by
  have hslash : isBlank '/' = false := by decide
  have hstar : isBlank '*' = false := by decide
  constructor
  · rintro ⟨front, rest, h, hclosed⟩
    rcases (append_cons_eq_pair_iff (ne_of_blank hc hslash) (ne_of_blank hc hstar)).mp h with
      ⟨after, hs, rfl⟩ | ⟨before, ht, -⟩
    · rcases (closed_append_cons_iff hc).mp hclosed with hclosed | hclosed
      · exact .inl ⟨front, after, hs, hclosed⟩
      · exact .inr (.inr ⟨⟨front, after, by simp [hs]⟩, hclosed⟩)
    · exact .inr (.inl ⟨before, rest, ht, hclosed⟩)
  · rintro (⟨front, rest, rfl, hclosed⟩ | ⟨front, rest, rfl, hclosed⟩ | ⟨⟨front, rest, rfl⟩, hclosed⟩)
    · refine ⟨front, rest ++ c :: t, by simp, ?_⟩
      exact (closed_append_cons_iff hc).mpr (.inl hclosed)
    · exact ⟨s ++ c :: front, rest, by simp, hclosed⟩
    · refine ⟨front, rest ++ c :: t, by simp, ?_⟩
      exact (closed_append_cons_iff hc).mpr (.inr hclosed)

/-- The number of characters that are not blank. -/
def solid (s : List Char) : Nat := s.countP (!isBlank ·)

/-- Two texts that agree in the marks of comments and in the number of characters that are not blank. -/
structure SameMarks (s t : List Char) : Prop where
  slashes : HasSlashes s ↔ HasSlashes t
  opened : ['/', '*'] <:+: s ↔ ['/', '*'] <:+: t
  closed : ['*', '/'] <:+: s ↔ ['*', '/'] <:+: t
  block : HasBlock s ↔ HasBlock t
  solid_eq : solid s = solid t

theorem SameMarks.refl (s : List Char) : SameMarks s s := ⟨.rfl, .rfl, .rfl, .rfl, rfl⟩

theorem SameMarks.trans {s t u : List Char} (h : SameMarks s t) (h' : SameMarks t u) : SameMarks s u :=
  ⟨h.slashes.trans h'.slashes, h.opened.trans h'.opened, h.closed.trans h'.closed,
    h.block.trans h'.block, h.solid_eq.trans h'.solid_eq⟩

/-- Marks may be compared on either side of a blank. -/
theorem SameMarks.between {c : Char} (hc : isBlank c = true) {s s' t t' : List Char}
    (h : SameMarks s s') (h' : SameMarks t t') : SameMarks (s ++ c :: t) (s' ++ c :: t') where
  slashes := by
    rw [hasSlashes_append_cons_iff hc, hasSlashes_append_cons_iff hc, h.slashes, h'.slashes]
  opened := by rw [opened_append_cons_iff hc, opened_append_cons_iff hc, h.opened, h'.opened]
  closed := by rw [closed_append_cons_iff hc, closed_append_cons_iff hc, h.closed, h'.closed]
  block := by
    rw [hasBlock_append_cons_iff hc, hasBlock_append_cons_iff hc, h.block, h'.block, h.opened,
      h'.closed]
  solid_eq := by
    have hs := h.solid_eq
    have ht := h'.solid_eq
    unfold solid at hs ht ⊢
    rw [List.countP_append, List.countP_append, List.countP_cons, List.countP_cons, hs, ht]

theorem not_hasSlashes_nil : ¬HasSlashes [] := by
  rintro ⟨front, rest, h, -⟩
  simp at h

theorem not_hasBlock_nil : ¬HasBlock [] := by
  rintro ⟨front, rest, h, -⟩
  simp at h

/-- A blank at the beginning has no part in the marks. -/
theorem sameMarks_start {c : Char} (hc : isBlank c = true) (s : List Char) : SameMarks s (c :: s) where
  slashes := by
    have h := hasSlashes_append_cons_iff (s := []) (t := s) hc
    simpa [not_hasSlashes_nil] using h.symm
  opened := by
    have h := opened_append_cons_iff (s := []) (t := s) hc
    simpa using h.symm
  closed := by
    have h := closed_append_cons_iff (s := []) (t := s) hc
    simpa using h.symm
  block := by
    have h := hasBlock_append_cons_iff (s := []) (t := s) hc
    simpa [not_hasBlock_nil] using h.symm
  solid_eq := by simp [solid, hc]

/-- So has a blank at the end. -/
theorem sameMarks_stop {c : Char} (hc : isBlank c = true) (s : List Char) : SameMarks s (s ++ [c]) where
  slashes := by simp [hasSlashes_append_cons_iff hc, not_hasSlashes_nil]
  opened := by
    have h := opened_append_cons_iff (s := s) (t := []) hc
    simpa using h.symm
  closed := by
    have h := closed_append_cons_iff (s := s) (t := []) hc
    simpa using h.symm
  block := by simp [hasBlock_append_cons_iff hc, not_hasBlock_nil]
  solid_eq := by simp [solid, hc]

/-- **Taking blanks away** leaves the marks as they are. -/
theorem Respaced.sameMarks {s t : List Char} (h : Respaced s t) : SameMarks s t := by
  induction h with
  | refl s => exact .refl s
  | trans _ _ ih ih' => exact ih.trans ih'
  | start hc s => exact sameMarks_start hc s
  | stop hc s => exact sameMarks_stop hc s
  | between hc _ _ ih ih' => exact ih.between hc ih'

/-- **Tidying** neither makes comments nor takes any away. -/
theorem commentFree_tidy {s : List Char} : CommentFree (tidy s) ↔ CommentFree s := by
  have hmarks := (respaced_tidy s).sameMarks
  rw [commentFree_iff, commentFree_iff, hmarks.slashes, hmarks.block]

/-! ### Texts in which there is nothing to take out -/

theorem solid_append (s t : List Char) : solid (s ++ t) = solid s + solid t := List.countP_append

/-- A comment has more characters than what is kept of it. -/
theorem Takes.solid_lt {before : Option Char} {taken kept left : List Char}
    (h : Takes before taken kept left) : solid kept < solid taken := by
  have hslash : isBlank '/' = false := by decide
  cases h with
  | block body left => simp [solid, hslash]
  | wholeLine _ _ => simp [solid, hslash]
  | line c _ =>
    simp only [solid, List.countP_cons, List.countP_nil, hslash, Bool.not_false, if_true]
    omega

theorem cleaned_eq_self {before : Option Char} {s : List Char} (h : CommentFreeAfter before s) :
    cleaned braceComment before s = s := by
  induction s generalizing before with
  | nil => rfl
  | cons c s ih =>
    obtain ⟨hnone, hmore⟩ := commentFreeAfter_cons.mp h
    rw [cleaned_of_none hnone, ih hmore]

/-- If no character is lost that is not blank, there is no comment. -/
theorem Cleans.commentFreeAfter {before : Option Char} {s out : List Char} (h : Cleans before s out) :
    solid out ≤ solid s ∧ (solid s ≤ solid out → CommentFreeAfter before s) := by
  induction h with
  | nil before => exact ⟨Nat.le_refl _, fun _ => commentFreeAfter_nil before⟩
  | @keep before c s out hnone _ ih =>
    obtain ⟨hle, hfree⟩ := ih
    rw [← List.singleton_append, ← List.singleton_append (l := s), solid_append, solid_append,
      List.singleton_append]
    exact ⟨by omega, fun hsolid => commentFreeAfter_cons.mpr ⟨hnone, hfree (by omega)⟩⟩
  | comment htakes _ _ ih =>
    have hless := htakes.solid_lt
    have hle := ih.1
    rw [solid_append, solid_append]
    exact ⟨by omega, fun hsolid => by omega⟩

/-- **A tidy text is left as it is exactly if it has no comment.** -/
theorem strip_brace_eq_self_iff {s : List Char} (h : IsTidy s) :
    strip .brace s = s ↔ CommentFree s := by
  have hstrip : strip .brace s = tidy (cleaned braceComment none s) := rfl
  constructor
  · intro heq
    have hsolid := (respaced_tidy (cleaned braceComment none s)).sameMarks.solid_eq
    rw [← hstrip, heq] at hsolid
    exact (cleans none s).commentFreeAfter.2 (Nat.le_of_eq hsolid)
  · intro hfree
    rw [hstrip, cleaned_eq_self hfree, h.tidy_eq]

end Vicinity.Comment
