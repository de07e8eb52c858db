import Vicinity.Proofs.Source.Literals

/-!
# Scanning closed code

Code in which every literal and comment is closed is scanned character of code by character of code, and
the scan goes on behind it. If besides its braces balance, the brace before it is closed by the one after
it.

## What is proved

* `scanCode_go_of_lexed`: a scan over closed code.
* `matchingBrace_of_lexed`: the brace that closes a block of closed code.
-/

namespace Vicinity

open Text Lexicon

/-- Closed code, where `follows` comes next, with its characters that belong to no literal and no comment,
each with what comes after it. -/
inductive Lexed (lexicon : Lexicon) (follows : List Char) :
    List (Char × List Char) → List Char → Prop where
  | nil : Lexed lexicon follows [] []
  | code {c : Char} {code : List (Char × List Char)} {s : List Char} (hquote : ¬lexicon.IsQuote c)
      (hcomment : c = '/' → ∀ d ∈ (s ++ follows).head?, d ≠ '/' ∧ d ≠ '*')
      (h : Lexed lexicon follows code s) : Lexed lexicon follows ((c, s ++ follows) :: code) (c :: s)
  | closed {t : List Char} {code : List (Char × List Char)} {s : List Char}
      (ht : lexicon.Closed (s ++ follows) t) (h : Lexed lexicon follows code s) :
      Lexed lexicon follows code (t ++ s)

/-- Text without quotes and slashes is closed code, and all of its characters are characters of code. -/
theorem exists_lexed_of_plain {lexicon : Lexicon} {s : List Char}
    (h : ∀ c ∈ s, ¬lexicon.IsQuote c ∧ c ≠ '/') (follows : List Char) :
    ∃ code, Lexed lexicon follows code s ∧ code.map (·.1) = s := by
  induction s with
  | nil => exact ⟨[], .nil, rfl⟩
  | cons c s ih =>
    obtain ⟨⟨hquote, hslash⟩, hmore⟩ := List.forall_mem_cons.mp h
    obtain ⟨code, hlexed, hchars⟩ := ih hmore
    exact ⟨_, .code hquote (fun hc => absurd hc hslash) hlexed, by rw [List.map_cons, hchars]⟩

/-- Closed code with closed code behind it. -/
theorem Lexed.append {lexicon : Lexicon} {code code' : List (Char × List Char)}
    {s t follows : List Char} (h : Lexed lexicon (t ++ follows) code s)
    (h' : Lexed lexicon follows code' t) : Lexed lexicon follows (code ++ code') (s ++ t) := by
  induction h with
  | nil => exact h'
  | @code c code s hquote hcomment _ ih =>
    rw [← List.append_assoc] at hcomment ⊢
    exact .code hquote hcomment ih
  | @closed u code s hu _ ih =>
    rw [List.append_assoc u]
    rw [← List.append_assoc] at hu
    exact .closed hu ih

/-- Characters of code in which the braces balance. -/
inductive Braced : List Char → Prop where
  | nil : Braced []
  | plain {c : Char} {s : List Char} (hopen : c ≠ '\x7b') (hclose : c ≠ '\x7d') (h : Braced s) :
      Braced (c :: s)
  | block {t s : List Char} (ht : Braced t) (h : Braced s) : Braced ('\x7b' :: (t ++ '\x7d' :: s))

theorem braced_of_plain {s : List Char} (h : ∀ c ∈ s, c ≠ '\x7b' ∧ c ≠ '\x7d') : Braced s := by
  induction s with
  | nil => exact .nil
  | cons c s ih =>
    obtain ⟨⟨hopen, hclose⟩, hmore⟩ := List.forall_mem_cons.mp h
    exact .plain hopen hclose (ih hmore)

/-- A step takes characters of code, wherever they stand, and comes from one state to another. -/
inductive Passes {σ β : Type} (step : σ → Nat → Char → List Char → Except β σ) :
    σ → List (Char × List Char) → σ → Prop where
  | nil (state : σ) : Passes step state [] state
  | cons {state mid last : σ} {c : Char} {rest : List Char} {code : List (Char × List Char)}
      (hstep : ∀ i, step state i c rest = .ok mid) (h : Passes step mid code last) :
      Passes step state ((c, rest) :: code) last

section

variable {σ β : Type} {step : σ → Nat → Char → List Char → Except β σ} {state mid last : σ}
  {code code' : List (Char × List Char)}

theorem Passes.append (h : Passes step state code mid) (h' : Passes step mid code' last) :
    Passes step state (code ++ code') last := by
  induction h with
  | nil => exact h'
  | cons hstep _ ih => exact .cons hstep (ih h')

/-- A step that takes every one of the characters without a change of state. -/
theorem passes_of_forall (h : ∀ x ∈ code, ∀ i, step state i x.1 x.2 = .ok state) :
    Passes step state code state := by
  induction code with
  | nil => exact .nil state
  | cons x code ih =>
    obtain ⟨hx, hcode⟩ := List.forall_mem_cons.mp h
    exact .cons hx (ih hcode)

/-! ### The scan -/

variable {lexicon : Lexicon} {stop : Option Int} {s follows : List Char} {offset resume : Nat}

/-- A place before the end of the scan. -/
theorem not_stopped {n : Nat} (hstop : ∀ limit ∈ stop, ((n + 1 : Nat) : Int) ≤ limit) :
    ¬stop.any (· ≤ (n : Int)) = true := by
  cases stop with
  | none => simp
  | some limit =>
    have := hstop limit rfl
    simp only [Option.any_some, decide_eq_true_eq]
    omega

/-- What has been passed over is not looked at. -/
theorem scanCode_go_skip (hresume : offset + s.length ≤ resume)
    (hstop : ∀ limit ∈ stop, ((offset + s.length : Nat) : Int) ≤ limit) :
    scanCode.go lexicon step stop (s ++ follows) offset resume state =
      scanCode.go lexicon step stop follows (offset + s.length) resume state := by
  induction s generalizing offset with
  | nil => rfl
  | cons c s ih =>
    rw [List.length_cons] at hresume hstop
    have hhere : ¬stop.any (· ≤ (offset : Int)) = true :=
      not_stopped fun limit hlimit => Int.le_trans (by omega) (hstop limit hlimit)
    have hnext : offset + (s.length + 1) = offset + 1 + s.length := by omega
    rw [List.cons_append, scanCode.go, if_neg hhere, if_pos (by omega),
      ih (by omega) (by rwa [← hnext]), List.length_cons, hnext]

/-- One character of code. -/
theorem scanCode_go_code {c : Char} {rest : List Char} (hcode : lexicon.opaqueLength? c rest = none)
    (hresume : resume ≤ offset) (hstop : ∀ limit ∈ stop, ((offset + 1 : Nat) : Int) ≤ limit) :
    scanCode.go lexicon step stop (c :: rest) offset resume state =
      match step state offset c rest with
      | .ok state => scanCode.go lexicon step stop rest (offset + 1) resume state
      | .error found => .error found := by
  rw [scanCode.go, if_neg (not_stopped hstop), if_neg (by omega)]
  cases step state offset c rest <;> simp only [hcode]

/-- **A scan over closed code** takes its characters of code and goes on behind it. -/
theorem scanCode_go_of_lexed (stop : Option Int) (hlexicon : lexicon.Tells)
    (h : Lexed lexicon follows code s) (hpasses : Passes step state code last) (hresume : resume ≤ offset)
    (hstop : ∀ limit ∈ stop, ((offset + s.length : Nat) : Int) ≤ limit) :
    ∃ resume' ≤ offset + s.length,
      scanCode.go lexicon step stop (s ++ follows) offset resume state =
        scanCode.go lexicon step stop follows (offset + s.length) resume' last := by
  induction h generalizing offset resume state with
  | nil =>
    cases hpasses
    exact ⟨resume, hresume, rfl⟩
  | @code c code s hquote hcomment h ih =>
    cases hpasses with
    | cons hstep hpasses =>
      rw [List.length_cons] at hstop ⊢
      have hnext : offset + (s.length + 1) = offset + 1 + s.length := by omega
      rw [hnext] at hstop ⊢
      obtain ⟨resume', hle, heq⟩ := ih hpasses (Nat.le_succ_of_le hresume) hstop
      refine ⟨resume', hle, ?_⟩
      rw [List.cons_append, scanCode_go_code (opaqueLength?_of_code hquote hcomment) hresume
        fun limit hlimit => Int.le_trans (by omega) (hstop limit hlimit), hstep]
      exact heq
  | @closed t code s ht h ih =>
    obtain ⟨c, t, rfl, hlength⟩ := opaqueLength?_of_closed hlexicon ht
    rw [List.length_append] at hstop ⊢
    have hnext : offset + ((c :: t).length + s.length) = offset + (c :: t).length + s.length := by omega
    rw [hnext] at hstop ⊢
    obtain ⟨resume', hle, heq⟩ := ih hpasses (Nat.le_refl (offset + (c :: t).length)) hstop
    refine ⟨resume', hle, ?_⟩
    have hhere : ¬stop.any (· ≤ (offset : Int)) = true := not_stopped fun limit hlimit =>
      Int.le_trans (by rw [List.length_cons]; omega) (hstop limit hlimit)
    have hskip : offset + (c :: t).length = offset + 1 + t.length := by
      rw [List.length_cons]
      omega
    rw [List.append_assoc, List.cons_append, scanCode.go, if_neg hhere, if_neg (by omega), hlength]
    dsimp only
    rw [scanCode_go_skip (by omega) fun limit hlimit => Int.le_trans (by omega) (hstop limit hlimit),
      ← hskip]
    exact heq

end

/-! ### Braces -/

/-- Code in which the braces balance leaves the count of open braces as it is, once one is open. -/
theorem passes_countBrace {chars : List Char} (h : Braced chars) {code : List (Char × List Char)}
    (hcode : code.map (·.1) = chars) {depth : Int} (hdepth : 1 ≤ depth) :
    Passes countBrace depth code depth := by
  induction h generalizing code depth with
  | nil =>
    obtain rfl := List.map_eq_nil_iff.mp hcode
    exact .nil depth
  | plain hopen hclose _ ih =>
    obtain ⟨x, more, rfl, rfl, hmore⟩ := List.map_eq_cons_iff.mp hcode
    exact .cons (fun i => by rw [countBrace, if_neg hopen, if_neg hclose]) (ih hmore hdepth)
  | @block t s _ _ iht ih =>
    obtain ⟨x, more, rfl, hx, hmore⟩ := List.map_eq_cons_iff.mp hcode
    obtain ⟨inside, after, rfl, hinside, hafter⟩ := List.map_eq_append_iff.mp hmore
    obtain ⟨y, behind, rfl, hy, hbehind⟩ := List.map_eq_cons_iff.mp hafter
    have hopen : ∀ i, countBrace depth i x.1 x.2 = .ok (depth + 1) := fun i => by
      rw [countBrace, if_pos hx]
    have hclose : ∀ i, countBrace (depth + 1) i y.1 y.2 = .ok depth := fun i => by
      rw [countBrace, hy, if_neg (by decide), if_pos rfl, if_neg (by omega), Int.add_sub_cancel]
    exact .cons hopen ((iht hinside (by omega)).append (.cons hclose (ih hbehind hdepth)))

/-- A scan for the brace that closes a block goes through closed code in it and goes on behind it. -/
theorem scanCode_of_passes {lexicon : Lexicon} (hlexicon : lexicon.Tells)
    {code : List (Char × List Char)} {body follows : List Char} (h : Lexed lexicon follows code body)
    {last : Int} (hpasses : Passes countBrace 1 code last) (offset : Nat) :
    ∃ resume ≤ offset + 1 + body.length,
      scanCode lexicon countBrace none ('\x7b' :: (body ++ follows)) offset 0 =
        scanCode.go lexicon countBrace none follows (offset + 1 + body.length) resume last := by
  have hopen : ∀ rest, lexicon.opaqueLength? '\x7b' rest = none := fun rest =>
    opaqueLength?_of_code hlexicon.opening (by simp)
  obtain ⟨resume, hresume, hscan⟩ := scanCode_go_of_lexed none hlexicon h hpasses
    (Nat.le_add_right offset 1) (by simp)
  refine ⟨resume, hresume, ?_⟩
  rw [scanCode, scanCode_go_code (hopen _) (Nat.le_refl offset) (by simp)]
  simp only [countBrace, if_pos]
  rw [Int.zero_add, hscan]

/-- **The brace that closes a block of closed code** is the one that comes after the code. -/
theorem matchingBrace_of_lexed {lexicon : Lexicon} (hlexicon : lexicon.Tells)
    {code : List (Char × List Char)} {body after : List Char}
    (h : Lexed lexicon ('\x7d' :: after) code body) (hbraced : Braced (code.map (·.1))) (offset : Nat) :
    matchingBrace lexicon ('\x7b' :: (body ++ '\x7d' :: after)) offset =
      some (offset + body.length + 1) := by
  have hclose : ∀ rest, lexicon.opaqueLength? '\x7d' rest = none := fun rest =>
    opaqueLength?_of_code hlexicon.closing (by simp)
  obtain ⟨resume, hresume, hscan⟩ := scanCode_of_passes hlexicon h
    (passes_countBrace hbraced rfl (Int.le_refl 1)) offset
  have hfound : scanCode lexicon countBrace none ('\x7b' :: (body ++ '\x7d' :: after)) offset 0 =
      .error (offset + 1 + body.length) := by
    rw [hscan, scanCode_go_code (hclose _) hresume (by simp)]
    rfl
  rw [matchingBrace, hfound]
  simp
  omega

end Vicinity
