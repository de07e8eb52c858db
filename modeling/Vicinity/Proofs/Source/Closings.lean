import Vicinity.Proofs.Source.CodeCharacters
import Vicinity.Proofs.Source.Declarations
import Vicinity.Proofs.Source.Scanning

/-!
# What a scan has passed over

Closed code is scanned to its end. Here is the other way round: if the automaton is in code at the
beginning of a part of a source and again behind it, each literal and comment that begins in this part ends
in it, so the part is closed code. Hence a brace that is found to close another one has closed and balanced
code before it, and nothing else.

## What is proved

* `exists_closed`: a literal or comment out of which the automaton has come is closed.
* `exists_lexed`: what lies between two places at which the automaton is in code is closed code.
* `matchingBrace_append_iff`: which brace closes the one at the beginning of a source.
-/

namespace Vicinity

open Lexicon

/-! ### Literals and comments that have ended -/

namespace Reading

variable {lexicon : Lexicon} {quote : Char} {s rest : List Char}

/-- A reading goes on with the first of some more characters. -/
theorem after_append_cons (reading : Reading) (c : Char) (s rest : List Char) :
    reading.after lexicon ((c :: s) ++ rest) (c :: s).length =
      (reading.next lexicon c (s ++ rest).head?).after lexicon (s ++ rest) s.length := rfl

/-- A literal or comment does not end before its next character. -/
theorem exists_cons_of_after {reading : Reading} (hcode : reading ≠ .code)
    (h : reading.after lexicon (s ++ rest) s.length = .code) :
    ∃ c more, s = c :: more ∧
      (reading.next lexicon c (more ++ rest).head?).after lexicon (more ++ rest) more.length =
        .code := by
  cases s with
  | nil =>
    rw [List.length_nil, after_zero] at h
    exact absurd h hcode
  | cons c more => exact ⟨c, more, rfl, h⟩

/-- A literal with escapes that has ended, whatever is read behind it. -/
theorem exists_quotedBody {reading behind : Reading} (hcode : reading ≠ .code)
    (hnext : ∀ c following, reading.next lexicon c following =
      if c = '\\' then .passing reading else if c = quote then behind else reading)
    (h : reading.after lexicon (s ++ rest) s.length = .code) :
    ∃ t u, s = t ++ quote :: u ∧ QuotedBody quote t ∧
      behind.after lexicon (u ++ rest) u.length = .code := by
  induction hlength : s.length using Nat.strongRecOn generalizing s with
  | ind n ih =>
    subst hlength
    obtain ⟨c, s, rfl, hmore⟩ := exists_cons_of_after hcode h
    rw [hnext] at hmore
    split_ifs at hmore with hescape hquote
    · obtain ⟨d, s, rfl, hrest⟩ := exists_cons_of_after (by simp) hmore
      obtain ⟨t, u, rfl, ht, hu⟩ := ih s.length (by simp only [List.length_cons]; omega) hrest rfl
      exact ⟨c :: d :: t, u, rfl, hescape ▸ .escape ht, hu⟩
    · exact ⟨[], s, by rw [hquote]; rfl, .nil, hmore⟩
    · obtain ⟨t, u, rfl, ht, hu⟩ := ih s.length (by simp) hmore rfl
      exact ⟨c :: t, u, rfl, .plain hquote hescape ht, hu⟩

/-- A hole at some depth from which the automaton has come to the depth above it. -/
theorem exists_holeBody {depth : Nat}
    (h : (hole quote (depth + 1)).after lexicon (s ++ rest) s.length = .code) :
    ∃ t u, s = t ++ '\x7d' :: u ∧ HoleBody lexicon t ∧
      (if depth = 0 then template quote else hole quote depth).after lexicon (u ++ rest) u.length =
        .code := by
  induction hlength : s.length using Nat.strongRecOn generalizing s depth with
  | ind n ih =>
    subst hlength
    obtain ⟨c, s, rfl, hmore⟩ := exists_cons_of_after (by simp) h
    rw [next] at hmore
    split_ifs at hmore with hquote hopen hclose hlast
    · obtain ⟨t, u, rfl, ht, hu⟩ := exists_quotedBody (by simp) (fun _ _ => rfl) hmore
      obtain ⟨t', u', rfl, ht', hu'⟩ := ih u.length (by simp; omega) hu rfl
      exact ⟨c :: (t ++ c :: t'), u', by simp, .quoted hquote ht ht', hu'⟩
    · obtain ⟨t, u, rfl, ht, hu⟩ := ih s.length (by simp) hmore rfl
      rw [if_neg (Nat.succ_ne_zero depth)] at hu
      obtain ⟨t', u', rfl, ht', hu'⟩ := ih u.length (by simp; omega) hu rfl
      exact ⟨c :: (t ++ '\x7d' :: t'), u', by simp, hopen ▸ .braced ht ht', hu'⟩
    · have hzero : depth = 0 := by omega
      exact ⟨[], s, by rw [hclose]; rfl, .nil, by rwa [if_pos hzero]⟩
    · have hdeep : depth ≠ 0 := by omega
      exact ⟨[], s, by rw [hclose]; rfl, .nil, by rwa [if_neg hdeep]⟩
    · obtain ⟨t, u, rfl, ht, hu⟩ := ih s.length (by simp) hmore rfl
      exact ⟨c :: t, u, rfl, .plain hquote hopen hclose ht, hu⟩

/-- A template that has ended. -/
theorem exists_templateBody (h : (template quote).after lexicon (s ++ rest) s.length = .code) :
    ∃ t u, s = t ++ quote :: u ∧ TemplateBody lexicon quote t ∧
      Reading.code.after lexicon (u ++ rest) u.length = .code := by
  induction hlength : s.length using Nat.strongRecOn generalizing s with
  | ind n ih =>
    subst hlength
    obtain ⟨c, s, rfl, hmore⟩ := exists_cons_of_after (by simp) h
    rw [next] at hmore
    split_ifs at hmore with hescape hquote hhole
    · obtain ⟨d, s, rfl, hrest⟩ := exists_cons_of_after (by simp) hmore
      obtain ⟨t, u, rfl, ht, hu⟩ := ih s.length (by simp only [List.length_cons]; omega) hrest rfl
      exact ⟨c :: d :: t, u, rfl, hescape ▸ .escape ht, hu⟩
    · exact ⟨[], s, by rw [hquote]; rfl, .nil, hmore⟩
    · obtain ⟨rfl, hbrace⟩ := hhole
      obtain ⟨d, s, rfl, hrest⟩ := exists_cons_of_after (by simp) hmore
      obtain rfl : d = '\x7b' := Option.some.inj hbrace
      obtain ⟨t, u, rfl, ht, hu⟩ := exists_holeBody hrest
      rw [if_pos rfl] at hu
      obtain ⟨t', u', rfl, ht', hu'⟩ := ih u.length (by simp; omega) hu rfl
      exact ⟨'$' :: '\x7b' :: (t ++ '\x7d' :: t'), u', by simp, .hole ht ht', hu'⟩
    · obtain ⟨t, u, rfl, ht, hu⟩ := ih s.length (by simp) hmore rfl
      refine ⟨c :: t, u, rfl, .plain hquote hescape ?_ ht, hu⟩
      rintro ⟨rfl, hbrace⟩
      obtain ⟨more, rfl⟩ := List.head?_eq_some_iff.mp hbrace
      exact hhole ⟨rfl, rfl⟩

/-- A comment up to the end of its line that has ended; it is entered at its second slash. -/
theorem exists_lineComment {c : Char}
    (h : lineComment.after lexicon ((c :: s) ++ rest) (c :: s).length = .code) :
    ∃ t u, s = t ++ u ∧ '\n' ∉ t ∧ (∀ d ∈ (u ++ rest).head?, d = '\n') ∧
      Reading.code.after lexicon (u ++ rest) u.length = .code := by
  induction s generalizing c with
  | nil =>
    rw [after_append_cons, next] at h
    split_ifs at h with hend
    · exact ⟨[], [], rfl, List.not_mem_nil, fun d hd => Option.some.inj (hd.symm.trans hend), h⟩
    · obtain ⟨_, _, hnil, -⟩ := exists_cons_of_after (by simp) h
      cases hnil
  | cons d s ih =>
    rw [after_append_cons, next] at h
    split_ifs at h with hend
    · exact ⟨[], d :: s, rfl, List.not_mem_nil, fun e he => Option.some.inj (he.symm.trans hend), h⟩
    · obtain ⟨t, u, rfl, ht, hhead, hu⟩ := ih h
      refine ⟨d :: t, u, rfl, ?_, hhead, hu⟩
      rw [List.mem_cons, not_or]
      refine ⟨?_, ht⟩
      rintro rfl
      exact hend rfl

/-- A comment up to a star and a slash that has ended. -/
theorem exists_blockComment (h : blockComment.after lexicon (s ++ rest) s.length = .code) :
    ∃ t u, s = t ++ '*' :: '/' :: u ∧ ¬['*', '/'] <:+: t ∧
      Reading.code.after lexicon (u ++ rest) u.length = .code := by
  induction s with
  | nil =>
    obtain ⟨_, _, hnil, -⟩ := exists_cons_of_after (by simp) h
    cases hnil
  | cons c s ih =>
    rw [after_append_cons, next] at h
    split_ifs at h with hend
    · obtain ⟨rfl, hslash⟩ := hend
      obtain ⟨d, s, rfl, hu⟩ := exists_cons_of_after (by simp) h
      obtain rfl : d = '/' := Option.some.inj hslash
      exact ⟨[], s, rfl, by simp, hu⟩
    · obtain ⟨t, u, rfl, ht, hu⟩ := ih h
      refine ⟨c :: t, u, rfl, ?_, hu⟩
      rw [List.infix_cons_iff]
      rintro (hbegins | hlater)
      · obtain ⟨rfl, more, rfl⟩ := List.cons_prefix_cons.mp hbegins
        exact hend ⟨rfl, rfl⟩
      · exact ht hlater

/-- A literal without escapes that has ended. -/
theorem exists_raw (h : (raw quote).after lexicon (s ++ rest) s.length = .code) :
    ∃ t u, s = t ++ quote :: u ∧ quote ∉ t ∧
      Reading.code.after lexicon (u ++ rest) u.length = .code := by
  induction s with
  | nil =>
    obtain ⟨_, _, hnil, -⟩ := exists_cons_of_after (by simp) h
    cases hnil
  | cons c s ih =>
    rw [after_append_cons, next] at h
    split_ifs at h with hquote
    · exact ⟨[], s, by rw [hquote]; rfl, List.not_mem_nil, h⟩
    · obtain ⟨t, u, rfl, ht, hu⟩ := ih h
      exact ⟨c :: t, u, rfl, by simp [ht, Ne.symm hquote], hu⟩

end Reading

/-! ### Closed code -/

section

variable {lexicon : Lexicon} {s rest : List Char}

/-- **A literal or comment out of which the automaton has come is closed.** -/
theorem exists_closed {c : Char} (hopen : Reading.code.next lexicon c (s ++ rest).head? ≠ .code)
    (h : Reading.code.after lexicon ((c :: s) ++ rest) (c :: s).length = .code) :
    ∃ t u, s = t ++ u ∧ Closed lexicon (u ++ rest) (c :: t) ∧
      Reading.code.after lexicon (u ++ rest) u.length = .code := by
  rw [Reading.after_append_cons, Reading.next] at h
  rw [Reading.next] at hopen
  split_ifs at h hopen with hline hblock hescaped hraw htemplate
  · obtain ⟨rfl, hslash⟩ := hline
    obtain ⟨d, s, rfl, -⟩ := Reading.exists_cons_of_after (by simp) h
    obtain rfl : d = '/' := Option.some.inj hslash
    obtain ⟨t, u, rfl, ht, hend, hu⟩ := Reading.exists_lineComment h
    exact ⟨'/' :: t, u, rfl, .line ht hend, hu⟩
  · obtain ⟨rfl, hstar⟩ := hblock
    obtain ⟨d, s, rfl, hcomment⟩ := Reading.exists_cons_of_after (by simp) h
    obtain rfl : d = '*' := Option.some.inj hstar
    obtain ⟨t, u, rfl, ht, hu⟩ := Reading.exists_blockComment hcomment
    exact ⟨'*' :: (t ++ ['*', '/']), u, by simp, .block ht, hu⟩
  · obtain ⟨t, u, rfl, ht, hu⟩ := Reading.exists_quotedBody (by simp) (fun _ _ => rfl) h
    exact ⟨t ++ [c], u, by simp, .escaped hescaped ht, hu⟩
  · obtain ⟨t, u, rfl, ht, hu⟩ := Reading.exists_raw h
    exact ⟨t ++ [c], u, by simp, .raw hraw ht, hu⟩
  · obtain ⟨t, u, rfl, ht, hu⟩ := Reading.exists_templateBody h
    exact ⟨t ++ [c], u, by simp, .template htemplate ht, hu⟩
  · exact absurd rfl hopen

/-- **What lies between two places of code is closed code.** -/
theorem exists_lexed (h : Reading.code.after lexicon (s ++ rest) s.length = .code) :
    ∃ code, Lexed lexicon rest code s := by
  induction hlength : s.length using Nat.strongRecOn generalizing s with
  | ind n ih =>
    subst hlength
    cases s with
    | nil => exact ⟨[], .nil⟩
    | cons c s =>
      by_cases hcode : Reading.code.next lexicon c (s ++ rest).head? = .code
      · obtain ⟨hquote, hcomment⟩ := Reading.next_code_iff.mp hcode
        rw [Reading.after_append_cons, hcode] at h
        obtain ⟨code, hlexed⟩ := ih s.length (by simp) h rfl
        refine ⟨_, .code hquote (fun hc d hd => ?_) hlexed⟩
        obtain ⟨hslash, hstar⟩ := hcomment hc
        rw [Option.mem_def.mp hd] at hslash hstar
        exact ⟨fun heq => hslash (congrArg some heq), fun heq => hstar (congrArg some heq)⟩
      · obtain ⟨t, u, rfl, ht, hu⟩ := exists_closed hcode h
        obtain ⟨code, hlexed⟩ := ih u.length (by simp only [List.length_cons, List.length_append]; omega) hu rfl
        exact ⟨code, .closed ht hlexed⟩

/-- Closed code can be cut at one of its characters of code. -/
theorem Lexed.exists_of_append {front back : List (Char × List Char)} {x : Char × List Char}
    (h : Lexed lexicon rest (front ++ x :: back) s) :
    ∃ t u, s = t ++ x.1 :: u ∧ Lexed lexicon (x.1 :: (u ++ rest)) front t := by
  generalize hcode : front ++ x :: back = code at h
  induction h generalizing front with
  | nil => simp at hcode
  | @code c code s hquote hcomment h ih =>
    cases front with
    | nil =>
      obtain ⟨rfl, -⟩ := List.cons.inj hcode
      exact ⟨[], s, rfl, .nil⟩
    | cons y front =>
      obtain ⟨rfl, hmore⟩ := List.cons.inj hcode
      obtain ⟨t, u, rfl, ht⟩ := ih hmore
      refine ⟨c :: t, u, rfl, ?_⟩
      rw [List.append_assoc] at hcomment ⊢
      exact .code hquote hcomment ht
  | @closed v code s hv h ih =>
    obtain ⟨t, u, rfl, ht⟩ := ih hcode
    rw [List.append_assoc] at hv
    exact ⟨v ++ t, u, (List.append_assoc v t _).symm, .closed hv ht⟩

/-- Closed code stays so before another text that begins with the same character. -/
theorem Lexed.of_head? {follows : List Char} {code : List (Char × List Char)}
    (h : Lexed lexicon follows code s) (follows' : List Char)
    (hhead : follows.head? = follows'.head?) :
    ∃ code', Lexed lexicon follows' code' s ∧ code'.map (·.1) = code.map (·.1) := by
  have happend : ∀ s : List Char, (s ++ follows).head? = (s ++ follows').head? := by
    intro s
    rw [List.head?_append, List.head?_append, hhead]
  induction h with
  | nil => exact ⟨[], .nil, rfl⟩
  | @code c code s hquote hcomment _ ih =>
    obtain ⟨code', hlexed, hchars⟩ := ih
    rw [happend] at hcomment
    exact ⟨_, .code hquote hcomment hlexed, by simp [hchars]⟩
  | @closed t code s ht _ ih =>
    obtain ⟨code', hlexed, hchars⟩ := ih
    refine ⟨code', .closed ?_ hlexed, hchars⟩
    cases ht with
    | line hline hend => exact .line hline (happend s ▸ hend)
    | block hblock => exact .block hblock
    | escaped hquote hbody => exact .escaped hquote hbody
    | raw hquote hbody => exact .raw hquote hbody
    | template hquote hbody => exact .template hquote hbody

end

/-! ### Braces -/

section

variable {code : List (Char × List Char)} {depth last : Int}

/-- Counting braces either goes through or ends at a closing brace at which a single one is open. -/
theorem passes_or_closes (code : List (Char × List Char)) (hdepth : 1 ≤ depth) :
    (∃ last, 1 ≤ last ∧ Passes countBrace depth code last) ∨
      ∃ front rest back, code = front ++ ('\x7d', rest) :: back ∧ Passes countBrace depth front 1 := by
  induction code generalizing depth with
  | nil => exact .inl ⟨depth, hdepth, .nil depth⟩
  | cons x code ih =>
    obtain ⟨c, rest⟩ := x
    by_cases hend : c = '\x7d' ∧ depth = 1
    · obtain ⟨rfl, rfl⟩ := hend
      exact .inr ⟨[], rest, code, rfl, .nil 1⟩
    · have hstep : ∀ i, countBrace depth i c rest = .ok (depth + braceWeight c) := by
        intro i
        rw [countBrace_eq, if_neg hend]
      have hopen : 1 ≤ depth + braceWeight c := by
        unfold braceWeight
        split_ifs with h₁ h₂
        · omega
        · have hdeep : depth ≠ 1 := fun h => hend ⟨h₂, h⟩
          omega
        · omega
      rcases ih hopen with ⟨last, hlast, hpasses⟩ | ⟨front, rest', back, rfl, hpasses⟩
      · exact .inl ⟨last, hlast, .cons hstep hpasses⟩
      · exact .inr ⟨(c, rest) :: front, rest', back, rfl, .cons hstep hpasses⟩

/-- What a step of counting adds, and that it does not close the last open brace. -/
theorem Passes.countBrace_cons {x : Char × List Char}
    (h : Passes countBrace depth (x :: code) last) :
    ¬(x.1 = '\x7d' ∧ depth = 1) ∧ Passes countBrace (depth + braceWeight x.1) code last := by
  cases h with
  | @cons _ mid _ c rest _ hstep hmore =>
    have hfirst := hstep 0
    rw [countBrace_eq] at hfirst
    split_ifs at hfirst with hend
    cases hfirst
    exact ⟨hend, hmore⟩

/-- Where the count has come below what it was, a brace has been closed, and what comes before it
balances. -/
theorem Passes.exists_closing (h : Passes countBrace (depth + 1) code last) (hlast : last ≤ depth) :
    ∃ inside rest behind, code = inside ++ ('\x7d', rest) :: behind ∧ Braced (inside.map (·.1)) ∧
      Passes countBrace depth behind last := by
  induction hlength : code.length using Nat.strongRecOn generalizing code depth with
  | ind n ih =>
    subst hlength
    cases code with
    | nil =>
      cases h
      omega
    | cons x code =>
      obtain ⟨c, rest⟩ := x
      obtain ⟨-, hmore⟩ := h.countBrace_cons
      simp only [braceWeight] at hmore
      split_ifs at hmore with hopen hclose
      · obtain ⟨inside, r, behind, rfl, hinside, hbehind⟩ :=
          ih code.length (by simp) hmore (by omega) rfl
        obtain ⟨inside', r', behind', rfl, hinside', hbehind'⟩ :=
          ih behind.length (by simp; omega) hbehind hlast rfl
        refine ⟨(c, rest) :: (inside ++ ('\x7d', r) :: inside'), r', behind', by simp, ?_, hbehind'⟩
        simpa [hopen] using Braced.block hinside hinside'
      · rw [Int.add_neg_cancel_right] at hmore
        exact ⟨[], rest, code, by rw [hclose]; rfl, .nil, hmore⟩
      · rw [Int.add_zero] at hmore
        obtain ⟨inside, r, behind, rfl, hinside, hbehind⟩ := ih code.length (by simp) hmore hlast rfl
        exact ⟨(c, rest) :: inside, r, behind, rfl, .plain hopen hclose hinside, hbehind⟩

/-- Code that leaves a single open brace open and none besides balances. -/
theorem Passes.braced (h : Passes countBrace 1 code 1) : Braced (code.map (·.1)) := by
  induction hlength : code.length using Nat.strongRecOn generalizing code with
  | ind n ih =>
    subst hlength
    cases code with
    | nil => exact .nil
    | cons x code =>
      obtain ⟨c, rest⟩ := x
      obtain ⟨hopened, hmore⟩ := h.countBrace_cons
      simp only [braceWeight] at hmore
      split_ifs at hmore with hopen hclose
      · obtain ⟨inside, r, behind, rfl, hinside, hbehind⟩ := hmore.exists_closing (Int.le_refl 1)
        have hrest := ih behind.length (by simp; omega) hbehind rfl
        simpa [hopen] using Braced.block hinside hrest
      · exact absurd ⟨hclose, rfl⟩ hopened
      · exact .plain hopen hclose (ih code.length (by simp) hmore rfl)

end

/-- The place at which a count of braces ends. -/
theorem eq_of_countBrace {depth : Int} {i found : Nat} {c : Char} {rest : List Char}
    (h : countBrace depth i c rest = .error found) : found = i := by
  rw [countBrace_eq] at h
  split_ifs at h
  exact (Except.error.inj h).symm

/-- A brace behind which some are still open does not close the block. -/
theorem lt_of_matchingBrace {lexicon : Lexicon} (hlexicon : lexicon.Tells)
    {code : List (Char × List Char)} {body after : List Char} {offset close : Nat} {last : Int}
    (h : Lexed lexicon ('\x7d' :: after) code body) (hpasses : Passes countBrace 1 code last)
    (hlast : last ≠ 1)
    (hfound : matchingBrace lexicon ('\x7b' :: (body ++ '\x7d' :: after)) offset = some close) :
    offset + body.length + 1 < close := by
  have hclose : lexicon.opaqueLength? '\x7d' after = none :=
    opaqueLength?_of_code hlexicon.closing (by simp)
  obtain ⟨resume, hresume, hscan⟩ := scanCode_of_passes hlexicon h hpasses offset
  rw [scanCode_go_code hclose hresume (by simp), countBrace_eq, if_neg fun hend => hlast hend.2] at hscan
  rw [matchingBrace, hscan] at hfound
  split at hfound
  · rename_i found hlater
    obtain ⟨depth, before, c, rest, -, hstep⟩ := exists_of_scanCode_go hlater
    have hplace := eq_of_countBrace hstep
    cases hfound
    omega
  · cases hfound

/-- Code that is closed and balances for a scan, in a block that ends behind it. -/
def Lexicon.Balanced (lexicon : Lexicon) (s : List Char) : Prop :=
  ∃ code, Lexed lexicon ['\x7d'] code s ∧ Braced (code.map (·.1))

/-- **A brace is closed by another one** exactly if what stands between the two is closed and balances. -/
theorem matchingBrace_append_iff {lexicon : Lexicon} (hlexicon : lexicon.Tells)
    {body after : List Char} {offset : Nat} :
    matchingBrace lexicon ('\x7b' :: (body ++ '\x7d' :: after)) offset =
        some (offset + body.length + 1) ↔
      lexicon.Balanced body := by
  constructor
  · intro hfound
    have hread : Reading.code.after lexicon (body ++ '\x7d' :: after) body.length = .code := by
      obtain ⟨hplace, -⟩ := ((matchingBrace_eq_some_iff hlexicon.opening).mp hfound).1
      obtain ⟨⟨i, c, rest⟩, hmem, hi⟩ : ∃ x ∈ codeFrom lexicon .code
          ('\x7b' :: (body ++ '\x7d' :: after)) offset, x.1 = offset + (body.length + 1) := by
        simpa [codeChars_eq, Nat.add_assoc] using hplace
      obtain rfl : i = offset + (body.length + 1) := hi
      have hfirst : Reading.code.next lexicon '\x7b' (body ++ '\x7d' :: after).head? = .code :=
        Reading.next_code_iff.mpr ⟨hlexicon.opening, by simp⟩
      have hcode := (mem_codeFrom.mp hmem).2.1
      rwa [Reading.after_cons_succ, hfirst] at hcode
    obtain ⟨code, hlexed⟩ := exists_lexed hread
    rcases passes_or_closes code (Int.le_refl 1) with
      ⟨last, hlast, hpasses⟩ | ⟨front, rest, back, rfl, hpasses⟩
    · obtain rfl : last = 1 := by
        by_contra hmore
        have hlater := lt_of_matchingBrace hlexicon hlexed hpasses (by omega) hfound
        exact absurd hlater (Nat.lt_irrefl _)
      obtain ⟨code', hlexed', hchars⟩ := hlexed.of_head? ['\x7d'] rfl
      exact ⟨code', hlexed', hchars ▸ hpasses.braced⟩
    · obtain ⟨t, u, rfl, ht⟩ := hlexed.exists_of_append
      have hearlier := matchingBrace_of_lexed hlexicon ht hpasses.braced offset
      rw [List.append_assoc, List.cons_append, hearlier] at hfound
      simp only [Option.some.injEq, List.length_append, List.length_cons] at hfound
      omega
  · rintro ⟨code, hlexed, hbraced⟩
    obtain ⟨code', hlexed', hchars⟩ := hlexed.of_head? ('\x7d' :: after) rfl
    exact matchingBrace_of_lexed hlexicon hlexed' (hchars ▸ hbraced) offset

end Vicinity
