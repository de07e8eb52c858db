import Vicinity.Proofs.Source.Extracts

/-!
# The members of a class

The members of a class are searched for in turns. A turn finds the next header of a member and goes on where
the block ends that the header begins; where the name of the header shows a statement, such as a choice, the
block is passed over and nothing is reported. The source may be malformed in any way: a block that is not
closed reaches to the end of the source, and so beyond the class.

A run of the search (`Turns`) lists the headers that are found, with no bound on how often it goes on. Each
turn goes forward, so there is a run from each offset. What a header declares lies between the header's start
and the end of its block, and a later header is found behind that.

## What is proved

* `Header.of_nextHeader`: what a turn finds.
* `Header.blockEnd_eq`: where the block of a header ends.
* `lt_resumeAt`, `exists_turns`: each turn goes forward, and the search ends.
* `Turns.members_eq`: the members are what the headers of a run declare.
* `Turns.pairwise`: headers lie behind the blocks of those before them.
* `members_separated`: what this says about the reported members.
-/

namespace Vicinity

open Text Text.Pattern

namespace Script

/-- A run of the search from an offset on, with the headers that it finds. -/
inductive Turns (source : List Char) (stop : Nat) : Nat → List Match → Prop where
  /-- No header is found. -/
  | done {from_ : Nat} (h : nextHeader source stop from_ = none) : Turns source stop from_ []
  /-- A header is found, and the search goes on. -/
  | turn {from_ : Nat} {m : Match} {later : List Match} (h : nextHeader source stop from_ = some m)
      (hlater : Turns source stop (resumeAt source m) later) : Turns source stop from_ (m :: later)

/-- How a header of a member stands in a source. -/
structure Header (source : List Char) (stop from_ : Nat) (m : Match) : Prop where
  /-- It is found from the offset on. -/
  from_le : from_ ≤ m.start
  /-- It begins before the end of the class. -/
  start_lt : m.start < stop
  /-- What is captured stands before the brace. -/
  captured_le : m.start + m.captured.flatten.length ≤ braceOf m
  /-- It ends behind the brace. -/
  stop_eq : m.stop.offset = braceOf m + 1
  /-- The brace is one. -/
  exists_drop : ∃ rest, source.drop (braceOf m) = '\x7b' :: rest

variable {source : List Char} {stop from_ : Nat} {m : Match} {found : List Match} {s : FlatSymbol}

/-! ### One turn -/

/-- **What a turn finds.** -/
theorem Header.of_nextHeader (h : nextHeader source stop from_ = some m) :
    Header source stop from_ m := by
  obtain ⟨before, front, rest, hsource, hstart, hoffset, hcaptured⟩ := exists_place_of_member h
  have hbrace : braceOf m = (before ++ front).length := by
    rw [braceOf, hoffset, Nat.add_sub_cancel]
  rw [nextHeader, ofOffset_eq_after] at h
  obtain ⟨skipped, tail, htail, hplace, hmatch⟩ := exists_place_of_search h
  obtain ⟨t, hreads, rfl, -, -⟩ := exists_reads_of_matchAt hmatch
  obtain ⟨header, rfl, -⟩ := exists_front_of_memberHeader hreads
  have hlength := congrArg List.length htail
  simp only [List.length_append, List.length_drop, List.length_take, List.length_singleton] at hlength hplace
  refine ⟨by omega, by omega, ?_, ?_, ⟨rest, ?_⟩⟩
  · rw [hbrace, hstart, List.length_append]
    omega
  · rw [hbrace, hoffset]
  · rw [hbrace, hsource, List.drop_left]

theorem Header.mono {next : Nat} (h : Header source stop next m) (hnext : from_ ≤ next) :
    Header source stop from_ m := { h with from_le := Nat.le_trans hnext h.from_le }

/-- A brace right behind a header opens the body. -/
theorem bodyBrace_brace (rest : List Char) (offset : Nat) :
    bodyBrace ('\x7b' :: rest) offset = some offset := by
  have hreach : ¬(offset : Int) + bodyReach ≤ offset := by
    rw [bodyReach]
    omega
  have hcode : Lexicon.script.opaqueLength? '\x7b' rest = none := rfl
  simp [bodyBrace, scanCode, scanCode.go, hreach, hcode, bodyStep]

/-- **A block reaches from its brace** to the one that closes it, or else to the end of the source. -/
theorem Header.blockEnd_eq (h : Header source stop from_ m) :
    blockEnd source m =
      (matchingBrace .script (source.drop (braceOf m)) (braceOf m)).elim source.length (· + 1) := by
  obtain ⟨rest, hdrop⟩ := h.exists_drop
  have hlength := congrArg List.length hdrop
  rw [List.length_drop, List.length_cons] at hlength
  rw [blockEnd, hdrop, declarationEnd, bodyBrace_brace]
  dsimp only
  rw [Nat.sub_self, List.drop_zero]
  cases matchingBrace .script ('\x7b' :: rest) (braceOf m) with
  | none =>
    show braceOf m + ('\x7b' :: rest).length = source.length
    rw [List.length_cons]
    omega
  | some close => rfl

/-- A block ends in the source, behind its brace. -/
theorem Header.brace_lt (h : Header source stop from_ m) :
    braceOf m < blockEnd source m ∧ blockEnd source m ≤ source.length := by
  obtain ⟨rest, hdrop⟩ := h.exists_drop
  have hlength := congrArg List.length hdrop
  rw [List.length_drop, List.length_cons] at hlength
  rw [h.blockEnd_eq]
  cases hclose : matchingBrace .script (source.drop (braceOf m)) (braceOf m) with
  | none =>
    rw [Option.elim_none]
    omega
  | some close =>
    obtain ⟨inside, tail, hinside, hplace⟩ := exists_of_matchingBrace hclose
    have hbefore := congrArg List.length hinside
    rw [List.length_drop, List.length_append, List.length_cons] at hbefore
    rw [Option.elim_some]
    omega

/-- The search goes on where the block ends. -/
theorem Header.resumeAt_eq (h : Header source stop from_ m) : resumeAt source m = blockEnd source m := by
  have := h.brace_lt
  rw [resumeAt, h.stop_eq]
  omega

/-- **Each turn goes forward.** -/
theorem lt_resumeAt (h : nextHeader source stop from_ = some m) : from_ < resumeAt source m := by
  have hm := Header.of_nextHeader h
  have := hm.from_le
  have := hm.captured_le
  have := hm.brace_lt
  rw [hm.resumeAt_eq]
  omega

/-- Nothing is found from the end of the class on. -/
theorem lt_stop_of_nextHeader (h : nextHeader source stop from_ = some m) : from_ < stop :=
  Nat.lt_of_le_of_lt (Header.of_nextHeader h).from_le (Header.of_nextHeader h).start_lt

/-! ### A run -/

/-- **The search ends**: there is a run from each offset. -/
theorem exists_turns (source : List Char) (stop from_ : Nat) : ∃ found, Turns source stop from_ found := by
  -- Each turn goes forward, and none is made from the end of the class on.
  induction hleft : stop - from_ using Nat.strongRecOn generalizing from_ with
  | ind left ih =>
    cases hnext : nextHeader source stop from_ with
    | none => exact ⟨[], .done hnext⟩
    | some m =>
      have hforward := lt_resumeAt hnext
      have hinside := lt_stop_of_nextHeader hnext
      obtain ⟨later, hlater⟩ := ih (stop - resumeAt source m) (by omega) (resumeAt source m) rfl
      exact ⟨m :: later, .turn hnext hlater⟩

/-- The headers of a run are found from where it begins. -/
theorem Turns.header (h : Turns source stop from_ found) :
    ∀ m ∈ found, Header source stop from_ m := by
  induction h with
  | done => exact fun _ hm => nomatch hm
  | turn hnext _ ih =>
    intro m hm
    rcases List.mem_cons.mp hm with rfl | hlater
    · exact .of_nextHeader hnext
    · exact (ih m hlater).mono (Nat.le_of_lt (lt_resumeAt hnext))

/-- **Headers lie behind the blocks of those before them.** -/
theorem Turns.pairwise (h : Turns source stop from_ found) :
    found.Pairwise fun a b => blockEnd source a ≤ b.start := by
  induction h with
  | done => exact .nil
  | turn hnext hlater ih =>
    refine .cons (fun m hm => ?_) ih
    rw [← (Header.of_nextHeader hnext).resumeAt_eq]
    exact (hlater.header m hm).from_le

/-- **The members are what the headers declare**, in the order in which they are found. -/
theorem Turns.members_eq (h : Turns source stop from_ found) :
    members source from_ stop = found.filterMap (member? source) := by
  induction h with
  | done hnone => exact members_of_nextHeader_none hnone
  | @turn from_ m later hnext hlater ih =>
    have hforward := lt_resumeAt hnext
    rw [members_of_nextHeader hnext, List.filterMap_cons]
    -- The search is not made from behind the end of the class, and would find nothing there.
    have hrest : (if from_ < resumeAt source m ∧ resumeAt source m ≤ stop then
        members source (resumeAt source m) stop else []) = later.filterMap (member? source) := by
      split
      · exact ih
      · rename_i hbehind
        cases hlater with
        | done => rfl
        | turn hmore =>
          have := lt_stop_of_nextHeader hmore
          omega
    rw [hrest]
    cases member? source m <;> rfl

/-! ### The reported members -/

/-- A member begins in its header and ends with the block of that. -/
theorem exists_start_of_member (hm : Header source stop from_ m) (hs : member? source m = some s) :
    ∃ start, m.start ≤ start ∧ start ≤ braceOf m ∧
      s.span = ⟨positionOfOffset source start, positionOfOffset source (blockEnd source m)⟩ := by
  obtain ⟨blanks, name, kind, hcaptured, -, rfl⟩ := exists_captured_of_member hs
  have hinside := hm.captured_le
  rw [hcaptured, List.flatten_cons, List.length_append] at hinside
  exact ⟨m.start + blanks.length, Nat.le_add_right _ _, by omega, rfl⟩

/-- How the headers that are found in a class whose body begins with the brace at an offset, and the symbols
that are reported, lie to each other. -/
structure Separated (source : List Char) (brace : Nat) (found : List Match)
    (reported : List FlatSymbol) : Prop where
  /-- Reported is what the headers declare. -/
  reported_eq : reported = found.filterMap (member? source)
  /-- The block of a header reaches from its brace to the one that closes it, or to the end of the source. -/
  block : ∀ m ∈ found, source[braceOf m]? = some '\x7b' ∧ blockEnd source m =
    (matchingBrace .script (source.drop (braceOf m)) (braceOf m)).elim source.length (· + 1)
  /-- A member begins behind the brace of the class, and ends behind its beginning. -/
  behind : ∀ s ∈ reported,
    (positionOfOffset source brace).lt s.span.start = true ∧ s.span.start.lt s.span.stop = true
  /-- Members are reported in the order in which they begin, each behind the end of those before it. -/
  ordered : reported.Pairwise fun a b =>
    a.span.start.lt b.span.start = true ∧ a.span.stop.le b.span.start = true
  /-- No member begins inside the block of a header, whether that is one of a member or not. -/
  outside : ∀ m ∈ found, ∀ s ∈ reported,
    s.span.start.le (positionOfOffset source (braceOf m)) = true ∨
      (positionOfOffset source (blockEnd source m)).le s.span.start = true

/-- A member of a header and one of a later header. -/
theorem member_before {a b : Match} {s t : FlatSymbol} (ha : Header source stop from_ a)
    (hb : Header source stop from_ b) (hab : blockEnd source a ≤ b.start) (hs : member? source a = some s)
    (ht : member? source b = some t) :
    s.span.start.lt t.span.start = true ∧ s.span.stop.le t.span.start = true := by
  obtain ⟨start, -, hstart, hspan⟩ := exists_start_of_member ha hs
  obtain ⟨start', hstart', hbrace, hspan'⟩ := exists_start_of_member hb ht
  have hablock := ha.brace_lt
  have hbblock := hb.brace_lt
  rw [hspan, hspan']
  exact ⟨positionOfOffset_lt (by omega) (by omega), positionOfOffset_le (by omega) (by omega)⟩

/-- A member does not begin inside the block of a header. -/
theorem member_outside {a b : Match} {s : FlatSymbol} (ha : Header source stop from_ a)
    (hb : Header source stop from_ b) (hs : member? source b = some s)
    (hab : a = b ∨ blockEnd source a ≤ b.start ∨ blockEnd source b ≤ a.start) :
    s.span.start.le (positionOfOffset source (braceOf a)) = true ∨
      (positionOfOffset source (blockEnd source a)).le s.span.start = true := by
  obtain ⟨start, hstart, hbrace, hspan⟩ := exists_start_of_member hb hs
  have hablock := ha.brace_lt
  have hbblock := hb.brace_lt
  have hacaptured := ha.captured_le
  rw [hspan]
  rcases hab with rfl | hlater | hearlier
  · exact .inl (positionOfOffset_le hbrace (by omega))
  · exact .inr (positionOfOffset_le (by omega) (by omega))
  · exact .inl (positionOfOffset_le (by omega) (by omega))

/-- Of two headers of a run that differ, one lies behind the block of the other. -/
theorem Turns.trichotomy (h : Turns source stop from_ found) {a b : Match} (ha : a ∈ found)
    (hb : b ∈ found) : a = b ∨ blockEnd source a ≤ b.start ∨ blockEnd source b ≤ a.start := by
  induction h with
  | done => cases ha
  | turn hnext hlater ih =>
    have hpairwise := (Turns.turn hnext hlater).pairwise
    rcases List.mem_cons.mp ha with rfl | halater
    · rcases List.mem_cons.mp hb with rfl | hblater
      · exact .inl rfl
      · exact .inr (.inl (List.rel_of_pairwise_cons hpairwise hblater))
    · rcases List.mem_cons.mp hb with rfl | hblater
      · exact .inr (.inr (List.rel_of_pairwise_cons hpairwise halater))
      · exact ih halater hblater

/-- What a run of the search finds is separated. -/
theorem Turns.separated {brace : Nat} (h : Turns source stop (brace + 1) found) :
    Separated source brace found (members source (brace + 1) stop) := by
  have hmember : ∀ s ∈ members source (brace + 1) stop, ∃ m ∈ found, member? source m = some s := by
    intro s hs
    rwa [h.members_eq, List.mem_filterMap] at hs
  constructor
  case reported_eq => exact h.members_eq
  case block =>
    intro m hm
    obtain ⟨rest, hdrop⟩ := (h.header m hm).exists_drop
    refine ⟨?_, (h.header m hm).blockEnd_eq⟩
    rw [← List.head?_drop, hdrop]
    rfl
  case behind =>
    intro s hs
    obtain ⟨m, hm, hms⟩ := hmember s hs
    obtain ⟨start, hstart, hbrace, hspan⟩ := exists_start_of_member (h.header m hm) hms
    have hfrom := (h.header m hm).from_le
    have hblock := (h.header m hm).brace_lt
    rw [hspan]
    exact ⟨positionOfOffset_lt (by omega) (by omega), positionOfOffset_lt (by omega) (by omega)⟩
  case ordered =>
    rw [h.members_eq, List.pairwise_filterMap]
    exact h.pairwise.imp_of_mem fun ha hb hab _ hs _ ht =>
      member_before (h.header _ ha) (h.header _ hb) hab hs ht
  case outside =>
    intro m hm s hs
    obtain ⟨m', hm', hs⟩ := hmember s hs
    exact member_outside (h.header m hm) (h.header m' hm') hs (h.trichotomy hm hm')

/-- What a class declares besides itself is separated. -/
theorem declared_class_separated (source : List Char) (c : Match) :
    ∃ own reported, declared source .class c = own :: reported ∧ (reported = [] ∨
      ∃ brace found, bodyBrace c.stop.rest c.stop.offset = some brace ∧
        Separated source brace found reported) := by
  refine ⟨_, _, rfl, ?_⟩
  rw [if_pos rfl]
  cases bodyBrace c.stop.rest c.stop.offset with
  | none => exact .inl rfl
  | some brace =>
    obtain ⟨found, hturns⟩ := exists_turns source (declarationEnd c.stop.rest c.stop.offset) (brace + 1)
    exact .inr ⟨brace, found, rfl, hturns.separated⟩

/-- **The search for the members of a class ends, and its members are separated.** Each turn goes forward,
from whichever offset it begins, so a run from the body of the class ends. What is reported are the headers
of that run, those of statements left out: each behind the brace of the class, in order, with no overlap, and
none inside the block of another header, be it that of a member or of a statement. -/
theorem members_separated (source : List Char) (brace stop : Nat) :
    (∀ from_ m, nextHeader source stop from_ = some m → from_ < resumeAt source m) ∧
      ∃ found, Turns source stop (brace + 1) found ∧
        Separated source brace found (members source (brace + 1) stop) := by
  obtain ⟨found, hturns⟩ := exists_turns source stop (brace + 1)
  exact ⟨fun _ _ h => lt_resumeAt h, found, hturns, hturns.separated⟩

/-- What looks like a member in the block of a choice is none. -/
example : members
    "class A \x7b\n  if (a) \x7b\n    b() \x7b\n    \x7d\n  \x7d\n  c() \x7b\x7d\n\x7d\n".toList 9 51 =
      [⟨"c", .method, .of 5 2 5 8⟩] := by decide +kernel

end Script

end Vicinity
