import Vicinity.Proofs.Comment.Marks

/-!
# Where comments were

A scan takes each comment out and goes on behind it; it does not look again at what comes together in
this way. The rest of a line leaves nothing that could become a comment, since a line feed or the end of
the text follows. A block can: what stood on either side of it now stands together, and a line comment
that came right behind it had no character of its own before it, and so was passed over.

## What is proved

* `commentFree_replaceAll_iff`: a scan leaves no comment exactly if nothing comes together where a block
  was.
* `strip_brace_strip_iff`: stripping a second time changes nothing exactly in these cases.
-/

namespace Vicinity.Comment

open Vicinity.Text

/-! ### What the scan has kept -/

/-- `Reaches s kept before left`: the scan of `s` comes to a place where it has kept some characters, has
passed the character `before` last, and has the rest still before it. -/
inductive Reaches (s : List Char) : List Char → Option Char → List Char → Prop where
  /-- The scan begins. -/
  | start : Reaches s [] none s
  /-- A character with which no comment begins has been kept. -/
  | keep {kept left : List Char} {before : Option Char} {c : Char} (h : Reaches s kept before (c :: left))
      (hnone : braceComment before (c :: left) = none) : Reaches s (kept ++ [c]) (some c) left
  /-- A comment has been passed. -/
  | comment {kept more taken left : List Char} {before : Option Char}
      (h : Reaches s kept before (taken ++ left)) (hne : taken ≠ [])
      (hfound : braceComment before (taken ++ left) = some ⟨more, taken.length⟩) :
      Reaches s (kept ++ more) taken.getLast? left

/-- What the scan has kept stays in front of what it makes of the rest. -/
theorem Reaches.replaceAll_eq {s kept left : List Char} {before : Option Char}
    (h : Reaches s kept before left) :
    replaceAll braceComment s = kept ++ cleaned braceComment before left := by
  induction h with
  | start => rfl
  | keep _ hnone ih => rw [ih, cleaned_of_none hnone, List.append_assoc, List.singleton_append]
  | comment _ hne hfound ih => rw [ih, cleaned_of_some hne hfound, List.append_assoc]

/-- `RemovesBlock s kept after`: the scan of `s` removes a block, with some characters kept before it and
some coming after it in what the scan gives. -/
def RemovesBlock (s kept after : List Char) : Prop :=
  ∃ before body left, Reaches s kept before ('/' :: '*' :: (body ++ ['*', '/']) ++ left) ∧
    braceComment before ('/' :: '*' :: (body ++ ['*', '/']) ++ left) = some ⟨[], body.length + 4⟩ ∧
      after = cleaned braceComment (some '/') left

/-- What stands on either side of a block gives a comment: the rest begins with two slashes, and nothing
stands before them that keeps them from being a comment; or a slash and a star come together and the
block is closed in the rest. -/
def Joins (kept after : List Char) : Prop :=
  (['/', '/'] <+: after ∧ ∀ c ∈ kept.getLast?, c ≠ '\\' ∧ c ≠ ':') ∨
    (kept.getLast? = some '/' ∧ ∃ rest, after = '*' :: rest ∧ ['*', '/'] <:+: rest)

theorem getLast?_block (body : List Char) :
    ('/' :: '*' :: (body ++ ['*', '/'])).getLast? = some '/' := by
  simp [List.getLast?_cons, List.getLast?_append]

theorem length_block (body : List Char) :
    ('/' :: '*' :: (body ++ ['*', '/'])).length = body.length + 4 := by
  simp

theorem RemovesBlock.replaceAll_eq {s kept after : List Char} (h : RemovesBlock s kept after) :
    replaceAll braceComment s = kept ++ after := by
  obtain ⟨before, body, left, hreach, hfound, rfl⟩ := h
  rw [← length_block] at hfound
  rw [hreach.replaceAll_eq, cleaned_of_some (List.cons_ne_nil _ _) hfound, getLast?_block,
    List.nil_append]

/-! ### What the scan makes of a beginning -/

variable {before : Option Char} {s out : List Char}

theorem Cleans.eq (h : Cleans before s out) : out = cleaned braceComment before s := by
  induction h with
  | nil => rfl
  | keep hnone _ ih => rw [cleaned_of_none hnone, ih]
  | comment htakes hfound _ ih => rw [cleaned_of_some htakes.ne_nil hfound, ih]

/-- A scan that gives a slash first has one before it. -/
theorem Cleans.slash (h : Cleans before s ('/' :: out)) : ∃ rest, s = '/' :: rest := by
  generalize hgiven : '/' :: out = given at h
  cases h with
  | nil => cases hgiven
  | keep _ _ =>
    obtain ⟨rfl, -⟩ := List.cons.inj hgiven
    exact ⟨_, rfl⟩
  | comment htakes _ _ =>
    cases htakes with
    | block _ _ => exact ⟨_, rfl⟩
    | wholeLine _ _ => exact ⟨_, rfl⟩
    | line c _ =>
      obtain ⟨rfl, -⟩ := List.cons.inj hgiven
      exact ⟨_, rfl⟩

/-- The end of a line stays. -/
theorem Cleans.newline (h : Cleans before s out) (hs : ∀ c ∈ s.head?, c = '\n') :
    ∀ c ∈ out.head?, c = '\n' := by
  cases h with
  | nil => exact hs
  | keep _ _ => exact hs
  | comment htakes _ _ =>
    cases htakes with
    | block _ _ => exact absurd (hs '/' rfl) (by decide)
    | wholeLine _ _ => exact absurd (hs '/' rfl) (by decide)
    | line c _ => exact hs

/-- A scan closes no block that was not closed. -/
theorem Cleans.not_closed (h : Cleans before s out) (hs : ¬['*', '/'] <:+: s) : ¬['*', '/'] <:+: out := by
  induction h with
  | nil => exact hs
  | @keep before c s out _ hrest ih =>
    rw [List.infix_cons_iff, not_or] at hs ⊢
    refine ⟨?_, ih hs.2⟩
    rintro ⟨rest, hrest'⟩
    obtain ⟨rfl, rfl⟩ := List.cons.inj hrest'
    obtain ⟨tail, rfl⟩ := hrest.slash
    exact hs.1 ⟨tail, rfl⟩
  | @comment before taken kept left out htakes _ hrest ih =>
    have hleft : ¬['*', '/'] <:+: left := fun h => hs (h.trans (List.suffix_append taken left).isInfix)
    cases htakes with
    | block body _ =>
      exact absurd ⟨'/' :: '*' :: body, left, by simp⟩ hs
    | wholeLine _ _ => exact ih hleft
    | line c hline =>
      rw [List.singleton_append, List.infix_cons_iff, not_or]
      refine ⟨?_, ih hleft⟩
      rintro ⟨rest, hrest'⟩
      obtain ⟨-, rfl⟩ := List.cons.inj hrest'
      exact absurd (hrest.newline hline '/' rfl) (by decide)

/-! ### Where pieces meet -/

/-- How the characters kept by a scan of `s` meet what comes after them: the last one is the one that
stood there in `s`, or a block has been removed here, or a line ends. -/
inductive Meets (s kept : List Char) (before : Option Char) (left after : List Char) : Prop where
  /-- Nothing was removed. -/
  | kept (h : kept.getLast? = before)
  /-- A block was. -/
  | block (h : RemovesBlock s kept after)
  /-- The rest of a line was. -/
  | line (h : ∀ c ∈ left.head?, c = '\n')

/-- **Where the next character comes from**: a block is removed first, or the text goes on with it, and
then what becomes of the rest of the text, after the comment if there is one right behind it. -/
theorem Reaches.exists_of_cons {s kept left out : List Char} {before : Option Char} {c : Char}
    (hreach : Reaches s kept before left) (h : Cleans before left (c :: out)) (hc : c ≠ '\n') :
    RemovesBlock s kept (c :: out) ∨
      ∃ last skipped rest, left = c :: (skipped ++ rest) ∧ Cleans last rest out ∧
        (skipped = [] ∨ ∀ d ∈ out.head?, d = '\n') := by
  generalize hgiven : c :: out = given at h ⊢
  cases h with
  | nil => cases hgiven
  | @keep _ c rest _ _ hrest =>
    cases hgiven
    exact .inr ⟨some c, [], rest, rfl, hrest, .inl rfl⟩
  | @comment _ taken kept rest _ htakes hfound hrest =>
    cases htakes with
    | block body _ =>
      rw [getLast?_block] at hrest
      rw [length_block] at hfound
      exact .inl ⟨before, body, rest, hreach, hfound, hrest.eq⟩
    | wholeLine _ hline =>
      subst hgiven
      exact absurd (hrest.newline hline c rfl) hc
    | @line _ body _ hline =>
      cases hgiven
      exact .inr ⟨_, '/' :: '/' :: body, rest, rfl, hrest, .inr (hrest.newline hline)⟩

/-- **A character that is kept begins no comment** in what the scan gives, if nothing is joined. -/
theorem braceComment_of_meets {s kept left out : List Char} {before : Option Char} {c : Char}
    (hjoins : ∀ kept after, RemovesBlock s kept after → ¬Joins kept after)
    (hreach : Reaches s kept before (c :: left)) (hmeets : Meets s kept before (c :: left) (c :: out))
    (hnone : braceComment before (c :: left) = none) (hleft : Cleans (some c) left out) :
    braceComment kept.getLast? (c :: out) = none := by
  obtain ⟨hblock, hslashes, hstart⟩ := braceComment_eq_none_iff.mp hnone
  have hnext := hreach.keep hnone
  refine braceComment_eq_none_iff.mpr ⟨?_, ?_, ?_⟩
  -- a slash before a star: it was no block in the text, and the scan closes none
  · rintro rest rfl rfl hclosed
    rcases hnext.exists_of_cons hleft (by decide) with h | ⟨last, skipped, tail, rfl, htail, -⟩
    · exact hjoins _ _ h (.inr ⟨by simp, rest, rfl, hclosed⟩)
    · refine htail.not_closed (fun h => hblock _ rfl rfl ?_) hclosed
      exact h.trans (List.suffix_append skipped tail).isInfix
  -- a character before two slashes, both of which stand in the text unless a block was before them
  · rintro rest rfl
    rcases hnext.exists_of_cons hleft (by decide) with h | ⟨last, skipped, tail, rfl, htail, hline⟩
    · by_contra hc
      rw [not_or] at hc
      refine hjoins _ _ h (.inl ⟨⟨rest, rfl⟩, fun d hd => ?_⟩)
      obtain rfl : c = d := by simpa using hd
      exact hc
    · rcases hline with rfl | hline
      · obtain ⟨tail, rfl⟩ := htail.slash
        exact hslashes tail rfl
      · exact absurd (hline '/' rfl) (by decide)
  -- two slashes, which begin a line now only if they did so in the text or a block was before them
  · rintro rest rfl rfl
    obtain ⟨tail, rfl⟩ := hleft.slash
    have hbefore := hstart tail rfl rfl
    cases hmeets with
    | kept h => rwa [h]
    | block h =>
      by_contra hline
      rw [Bool.not_eq_false] at hline
      exact hjoins _ _ h (.inl ⟨⟨rest, rfl⟩, ne_of_isLineStart hline⟩)
    | line h => exact absurd (h '/' rfl) (by decide)

/-- What the scan makes of the rest has no comment, after what it has kept. -/
theorem Cleans.commentFreeAfter_kept {s left out : List Char} {before : Option Char}
    (hjoins : ∀ kept after, RemovesBlock s kept after → ¬Joins kept after)
    (h : Cleans before left out) {kept : List Char} (hreach : Reaches s kept before left)
    (hmeets : Meets s kept before left out) : CommentFreeAfter kept.getLast? out := by
  induction h generalizing kept with
  | nil => exact commentFreeAfter_nil _
  | @keep before c left out hnone hleft ih =>
    refine commentFreeAfter_cons.mpr ⟨braceComment_of_meets hjoins hreach hmeets hnone hleft, ?_⟩
    have hlast : (kept ++ [c]).getLast? = some c := List.getLast?_concat
    rw [← hlast]
    exact ih (hreach.keep hnone) (.kept hlast)
  | @comment before taken more left out htakes hfound hleft ih =>
    have hnext := hreach.comment htakes.ne_nil hfound
    cases htakes with
    | block body _ =>
      rw [List.append_nil] at hnext
      refine ih hnext (.block ⟨before, body, left, hreach, ?_, ?_⟩)
      · rw [← length_block, hfound]
      · rw [hleft.eq, getLast?_block]
    | wholeLine _ hline =>
      rw [List.append_nil] at hnext
      exact ih hnext (.line hline)
    | line c hline =>
      have hlast : (kept ++ [c]).getLast? = some c := List.getLast?_concat
      have hmore := ih hnext (.line hline)
      have hnewline := hleft.newline hline
      rw [hlast] at hmore
      refine commentFreeAfter_cons.mpr ⟨braceComment_eq_none_iff.mpr ⟨?_, ?_, ?_⟩, hmore⟩
      · rintro rest - rfl
        exact absurd (hnewline '*' rfl) (by decide)
      · rintro rest rfl
        exact absurd (hnewline '/' rfl) (by decide)
      · rintro rest - rfl
        exact absurd (hnewline '/' rfl) (by decide)

/-- **A scan leaves no comment** exactly if nothing is joined where it removes a block. -/
theorem commentFree_replaceAll_iff {s : List Char} :
    CommentFree (replaceAll braceComment s) ↔
      ∀ kept after, RemovesBlock s kept after → ¬Joins kept after := by
  constructor
  · intro hfree kept after hremoves hjoins
    rw [hremoves.replaceAll_eq, commentFree_iff] at hfree
    rcases hjoins with ⟨⟨rest, rfl⟩, hlast⟩ | ⟨hlast, rest, rfl, hclosed⟩
    · exact hfree.1 ⟨kept, rest, by simp, hlast⟩
    · obtain ⟨front, rfl⟩ := List.getLast?_eq_some_iff.mp hlast
      exact hfree.2 ⟨front, rest, by simp, hclosed⟩
  · intro hjoins
    exact (cleans none s).commentFreeAfter_kept hjoins .start (.kept rfl)

/-- **Stripping a second time** changes nothing exactly if stripping has left no comment, and it leaves
none exactly if nothing is joined where it removes a block. -/
theorem strip_brace_strip_iff (s : List Char) :
    (strip .brace (strip .brace s) = strip .brace s ↔ CommentFree (strip .brace s)) ∧
      (CommentFree (strip .brace s) ↔
        ∀ kept after, RemovesBlock s kept after → ¬Joins kept after) :=
  ⟨strip_brace_eq_self_iff (isTidy_tidy _), commentFree_tidy.trans commentFree_replaceAll_iff⟩

/-- A line comment right behind a block stays, and a slash and a star that come together where a block was
are a block themselves: both are gone the second time. -/
theorem strip_brace_joined :
    (strip .brace "/**///x".toList = "//x".toList ∧
      strip .brace (strip .brace "/**///x".toList) = []) ∧
    strip .brace "://**/* x */".toList = ":/* x */".toList ∧
      strip .brace (strip .brace "://**/* x */".toList) = ":".toList := by
  decide

end Vicinity.Comment
