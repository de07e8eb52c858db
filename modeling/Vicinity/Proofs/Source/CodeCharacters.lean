import Mathlib.Order.Bounds.Basic
import Mathlib.Order.WellFounded
import Vicinity.Proofs.Source.Automaton

/-!
# The characters of code

What a scan goes through is what the automaton reads as code. So a scan may be told by a fold over a list
of characters, and what it finds by the reading of each of them: which characters are code, and at which
brace as many have been closed as opened.

## What is proved

* `scanCode_eq_foldlM`: a scan hands the characters that the automaton reads as code to its step.
* `mem_codeChars`: these are the characters to which the automaton comes in code and that begin no literal
  and no comment.
* `countBraces_eq_error_iff`: counting braces ends at the first place at which they balance.
* `scan_by_character`: what a scan finds, and which brace closes another one.
-/

namespace Vicinity

/-- How many more opening braces than closing ones are among the characters up to an offset. -/
def openBraces (found : List (Nat × Char)) (i : Nat) : Int :=
  (found.countP fun x => x.1 ≤ i ∧ x.2 = '\x7b' : Nat) -
    (found.countP fun x => x.1 ≤ i ∧ x.2 = '\x7d' : Nat)

/-! ### A scan as a fold -/

/-- The characters that are read as code, with their offsets and what follows each of them. -/
def codeFrom (lexicon : Lexicon) : Reading → List Char → (offset : Nat) → List (Nat × Char × List Char)
  | _, [], _ => []
  | reading, c :: rest, offset =>
    let following := reading.next lexicon c rest.head?
    if reading = .code ∧ following = .code then
      (offset, c, rest) :: codeFrom lexicon following rest (offset + 1)
    else codeFrom lexicon following rest (offset + 1)

variable {lexicon : Lexicon}

theorem le_of_mem_codeFrom {reading : Reading} {source : List Char} {offset : Nat}
    {x : Nat × Char × List Char} (h : x ∈ codeFrom lexicon reading source offset) : offset ≤ x.1 := by
  induction source generalizing reading offset with
  | nil => cases h
  | cons c rest ih =>
    rw [codeFrom] at h
    split at h
    · rcases List.mem_cons.mp h with rfl | h
      · exact Nat.le_refl offset
      · exact Nat.le_of_succ_le (ih h)
    · exact Nat.le_of_succ_le (ih h)

theorem pairwise_codeFrom (reading : Reading) (source : List Char) (offset : Nat) :
    (codeFrom lexicon reading source offset).Pairwise (·.1 < ·.1) := by
  induction source generalizing reading offset with
  | nil => exact .nil
  | cons c rest ih =>
    rw [codeFrom]
    split
    · exact .cons (fun x hx => le_of_mem_codeFrom hx) (ih _ _)
    · exact ih _ _

/-- A character is read as code if the automaton comes to it in code and stays there. -/
theorem mem_codeFrom {reading : Reading} {source : List Char} {offset k : Nat} {c : Char}
    {rest : List Char} :
    (offset + k, c, rest) ∈ codeFrom lexicon reading source offset ↔
      source.drop k = c :: rest ∧ reading.after lexicon source k = .code ∧
        Reading.code.next lexicon c rest.head? = .code := by
  induction source generalizing reading offset k with
  | nil => simp [codeFrom]
  | cons d source ih =>
    cases k with
    | zero =>
      have hlater : (offset, c, rest) ∉
          codeFrom lexicon (reading.next lexicon d source.head?) source (offset + 1) :=
        fun h => absurd (le_of_mem_codeFrom h) (by simp)
      rw [Nat.add_zero, List.drop_zero, Reading.after_zero, codeFrom]
      split
      · rename_i hcode
        simp only [List.mem_cons, hlater, or_false, Prod.mk.injEq, true_and, List.cons.injEq]
        constructor
        · rintro ⟨rfl, rfl⟩
          exact ⟨⟨rfl, rfl⟩, hcode.1, hcode.1 ▸ hcode.2⟩
        · rintro ⟨⟨rfl, rfl⟩, -⟩
          exact ⟨rfl, rfl⟩
      · rename_i hcode
        simp only [hlater, false_iff, List.cons.injEq]
        rintro ⟨⟨rfl, rfl⟩, rfl, hnext⟩
        exact hcode ⟨rfl, hnext⟩
    | succ k =>
      have hplace : offset + (k + 1) = offset + 1 + k := by omega
      have hother : (offset + 1 + k, c, rest) ≠ (offset, d, source) := by
        intro h
        have := congrArg Prod.fst h
        simp only at this
        omega
      rw [List.drop_succ_cons, Reading.after_cons_succ, hplace, ← @ih _ (offset + 1) k, codeFrom]
      split
      · rw [List.mem_cons]
        exact or_iff_right hother
      · rfl

/-- **A scan goes through the characters of code** up to where it stops, if the automaton is as far from
the next code as the scan is from the place at which it goes on. -/
theorem scanCode_go_eq_foldlM {σ β : Type} {step : σ → Nat → Char → List Char → Except β σ}
    {stop : Option Int} {reading : Reading} {source : List Char} {offset resume : Nat} {state : σ}
    (h : source ≠ [] → reading.left lexicon source = resume - offset) :
    scanCode.go lexicon step stop source offset resume state =
      ((codeFrom lexicon reading source offset).filter fun x =>
        !stop.any (· ≤ (x.1 : Int))).foldlM (fun state x => step state x.1 x.2.1 x.2.2) state := by
  induction source generalizing reading offset resume state with
  | nil => rfl
  | cons c rest ih =>
    have hleft := h (List.cons_ne_nil c rest)
    rw [scanCode.go]
    by_cases hstop : stop.any (· ≤ (offset : Int)) = true
    · -- nothing that comes later is before the end
      have hnone : (codeFrom lexicon reading (c :: rest) offset).filter
          (fun x => !stop.any (· ≤ (x.1 : Int))) = [] := by
        rw [List.filter_eq_nil_iff]
        intro x hx
        have hle := le_of_mem_codeFrom hx
        cases stop with
        | none => cases hstop
        | some limit =>
          simp only [Option.any_some, decide_eq_true_eq] at hstop
          simp only [Option.any_some, Bool.not_eq_true', decide_eq_false_iff_not, Decidable.not_not]
          omega
      rw [if_pos hstop, hnone]
      rfl
    rw [if_neg hstop, codeFrom]
    by_cases hskip : offset < resume
    · have hreading : reading ≠ .code := by
        rintro rfl
        rw [Reading.left] at hleft
        omega
      rw [Reading.left_next hreading] at hleft
      rw [if_pos hskip, if_neg fun hcode => hreading hcode.1]
      exact ih fun _ => by omega
    · obtain rfl : reading = .code := by
        by_contra hreading
        rw [Reading.left_next hreading] at hleft
        omega
      rw [if_neg hskip, Reading.opaqueLength?_eq]
      by_cases hcode : Reading.code.next lexicon c rest.head? = .code
      · dsimp only
        have hkept : (!stop.any (· ≤ (offset : Int))) = true := by simpa using hstop
        rw [if_pos hcode, if_pos ⟨rfl, hcode⟩, hcode, List.filter_cons_of_pos (by exact hkept),
          List.foldlM_cons]
        cases step state offset c rest with
        | error found => rfl
        | ok state => exact ih fun _ => by rw [Reading.left]; omega
      · dsimp only
        rw [if_neg hcode, if_neg fun h => hcode h.2]
        dsimp only
        exact ih fun _ => by omega

/-- **A scan hands the characters of code to its step**, those before its end. -/
theorem scanCode_eq_foldlM {σ β : Type} (step : σ → Nat → Char → List Char → Except β σ)
    (stop : Option Int) (source : List Char) (offset : Nat) (state : σ) :
    scanCode lexicon step stop source offset state =
      ((codeFrom lexicon .code source offset).filter fun x =>
        !stop.any (· ≤ (x.1 : Int))).foldlM (fun state x => step state x.1 x.2.1 x.2.2) state :=
  scanCode_go_eq_foldlM fun _ => by rw [Reading.left, Nat.sub_self]

/-- What is kept of the characters of code, the last one first. -/
theorem foldlM_keep (xs : List (Nat × Char × List Char)) (found : List (Nat × Char)) :
    xs.foldlM (fun found x => (.ok ((x.1, x.2.1) :: found) : Except Empty _)) found =
      .ok ((xs.map fun x => (x.1, x.2.1)).reverse ++ found) := by
  induction xs generalizing found with
  | nil => rfl
  | cons x xs ih =>
    rw [List.foldlM_cons, List.map_cons, List.reverse_cons, List.append_assoc]
    exact ih ((x.1, x.2.1) :: found)

theorem codeChars_eq (source : List Char) (start : Nat) (stop : Option Int) :
    codeChars lexicon source start stop =
      ((codeFrom lexicon .code source start).filter fun x => !stop.any (· ≤ (x.1 : Int))).map
        fun x => (x.1, x.2.1) := by
  unfold codeChars
  simp only [scanCode_eq_foldlM, foldlM_keep, List.append_nil, List.reverse_reverse]

theorem pairwise_codeChars (source : List Char) (start : Nat) (stop : Option Int) :
    ((codeChars lexicon source start stop).map (·.1)).Pairwise (· < ·) := by
  rw [codeChars_eq, List.map_map, List.pairwise_map]
  exact (pairwise_codeFrom .code source start).filter _

/-- What comes before the end of a scan is found by the scan without an end. -/
theorem codeChars_stop (source : List Char) (start : Nat) (stop : Option Int) :
    codeChars lexicon source start stop =
      (codeChars lexicon source start none).filter fun x => stop.all ((x.1 : Int) < ·) := by
  rw [codeChars_eq, codeChars_eq, List.filter_map]
  have hall : (codeFrom lexicon .code source start).filter
      (fun x => !(none : Option Int).any (· ≤ (x.1 : Int))) = codeFrom lexicon .code source start :=
    List.filter_eq_self.mpr fun _ _ => rfl
  rw [hall]
  congr 1
  refine List.filter_congr fun x _ => ?_
  cases stop with
  | none => simp
  | some limit =>
    simp only [Option.any_some, Option.all_some, ← decide_not, Int.not_le, Function.comp_apply]

theorem drop_eq_cons_iff {content : List Char} {n : Nat} {c : Char} {rest : List Char} :
    content.drop n = c :: rest ↔ content[n]? = some c ∧ rest = content.drop (n + 1) := by
  constructor
  · intro h
    rw [← List.head?_drop, ← List.tail_drop, h]
    exact ⟨rfl, rfl⟩
  · rintro ⟨hhere, rfl⟩
    obtain ⟨hn, rfl⟩ := List.getElem?_eq_some_iff.mp hhere
    exact List.drop_eq_getElem_cons hn

/-- The scan without an end finds the characters that are code. -/
theorem mem_codeChars {content : List Char} {start i : Nat} {c : Char} :
    (i, c) ∈ codeChars lexicon (content.drop start) start none ↔
      lexicon.CodeAt content start i c := by
  have hmem : (i, c) ∈ codeChars lexicon (content.drop start) start none ↔
      ∃ rest, (i, c, rest) ∈ codeFrom lexicon .code (content.drop start) start := by
    simp [codeChars_eq]
  rw [hmem]
  constructor
  · rintro ⟨rest, h⟩
    obtain ⟨k, rfl⟩ := Nat.exists_eq_add_of_le (le_of_mem_codeFrom h)
    obtain ⟨hdrop, hreading, hnext⟩ := mem_codeFrom.mp h
    rw [List.drop_drop] at hdrop
    obtain ⟨hhere, rfl⟩ := drop_eq_cons_iff.mp hdrop
    rw [List.head?_drop] at hnext
    obtain ⟨hquote, hcomment⟩ := Reading.next_code_iff.mp hnext
    exact ⟨Nat.le_add_right start k, hhere, by rwa [Nat.add_sub_cancel_left], hquote, hcomment⟩
  · rintro ⟨hle, hhere, hreading, hquote, hcomment⟩
    obtain ⟨k, rfl⟩ := Nat.exists_eq_add_of_le hle
    rw [Nat.add_sub_cancel_left] at hreading
    refine ⟨content.drop (start + k + 1), mem_codeFrom.mpr ⟨?_, hreading, ?_⟩⟩
    · rw [List.drop_drop]
      exact drop_eq_cons_iff.mpr ⟨hhere, rfl⟩
    · rw [List.head?_drop]
      exact Reading.next_code_iff.mpr ⟨hquote, hcomment⟩

/-! ### Braces -/

/-- What a character of code adds to the number of open braces. -/
def braceWeight (c : Char) : Int := if c = '\x7b' then 1 else if c = '\x7d' then -1 else 0

theorem countBrace_eq (depth : Int) (i : Nat) (c : Char) (rest : List Char) :
    countBrace depth i c rest =
      if c = '\x7d' ∧ depth = 1 then .error i else .ok (depth + braceWeight c) := by
  by_cases hopen : c = '\x7b'
  · subst hopen
    rfl
  by_cases hclose : c = '\x7d'
  · subst hclose
    by_cases hdepth : depth = 1
    · simp [countBrace, hdepth]
    · simp [countBrace, braceWeight, hdepth]
      rfl
  · simp [countBrace, braceWeight, hopen, hclose]

theorem openBraces_cons (a : Nat) (c : Char) (found : List (Nat × Char)) (j : Nat) :
    openBraces ((a, c) :: found) j = (if a ≤ j then braceWeight c else 0) + openBraces found j := by
  unfold openBraces braceWeight
  simp only [List.countP_cons]
  by_cases hle : a ≤ j
  · by_cases hopen : c = '\x7b'
    · simp [hle, hopen]
      omega
    · by_cases hclose : c = '\x7d'
      · simp [hle, hclose]
        omega
      · simp [hle, hopen, hclose]
  · simp [hle]

/-- The offsets at which as many braces have been closed as were open or have been opened. -/
def balances (depth : Int) (found : List (Nat × Char)) : Set Nat :=
  {i | i ∈ found.map (·.1) ∧ depth + openBraces found i = 0}

theorem openBraces_of_lt {found : List (Nat × Char)} {i : Nat} (h : ∀ x ∈ found, i < x.1) :
    openBraces found i = 0 := by
  induction found with
  | nil => rfl
  | cons x found ih =>
    obtain ⟨hx, hmore⟩ := List.forall_mem_cons.mp h
    rw [openBraces_cons, if_neg (by omega), ih hmore, Int.add_zero]

variable {a : Nat} {c : Char} {found : List (Nat × Char)}

/-- At its own offset the first character alone counts; behind it, it has been counted. -/
theorem mem_balances_cons (hsorted : ((a, c) :: found).Pairwise (·.1 < ·.1)) {depth : Int} {i : Nat} :
    i ∈ balances depth ((a, c) :: found) ↔
      i = a ∧ depth + braceWeight c = 0 ∨ i ∈ balances (depth + braceWeight c) found := by
  have hlater : ∀ x ∈ found, a < x.1 := (List.pairwise_cons.mp hsorted).1
  have hfirst : openBraces ((a, c) :: found) a = braceWeight c := by
    rw [openBraces_cons, if_pos (Nat.le_refl a), openBraces_of_lt hlater, Int.add_zero]
  have hbehind : ∀ j ∈ found.map (·.1),
      depth + openBraces ((a, c) :: found) j = depth + braceWeight c + openBraces found j := by
    intro j hj
    obtain ⟨x, hx, rfl⟩ := List.mem_map.mp hj
    rw [openBraces_cons, if_pos (Nat.le_of_lt (hlater x hx)), Int.add_assoc]
  simp only [balances, Set.mem_ofPred_eq, List.map_cons, List.mem_cons]
  constructor
  · rintro ⟨rfl | hi, hzero⟩
    · exact .inl ⟨rfl, hfirst ▸ hzero⟩
    · exact .inr ⟨hi, hbehind i hi ▸ hzero⟩
  · rintro (⟨rfl, hzero⟩ | ⟨hi, hzero⟩)
    · exact ⟨.inl rfl, hfirst.symm ▸ hzero⟩
    · exact ⟨.inr hi, (hbehind i hi).symm ▸ hzero⟩

/-- Where the first character does not balance the braces, the others must. -/
theorem balances_cons_of_ne (hsorted : ((a, c) :: found).Pairwise (·.1 < ·.1)) {depth : Int}
    (hdepth : depth + braceWeight c ≠ 0) :
    balances depth ((a, c) :: found) = balances (depth + braceWeight c) found := by
  ext i
  rw [mem_balances_cons hsorted]
  exact or_iff_right fun h => hdepth h.2

/-- **Counting braces ends at the first place at which they balance**, if one is open at first. -/
theorem countBraces_eq_error_iff {depth : Int} (hdepth : 1 ≤ depth)
    (hsorted : found.Pairwise (·.1 < ·.1)) {i : Nat} :
    found.foldlM (fun depth x => countBrace depth x.1 x.2 []) depth = .error i ↔
      IsLeast (balances depth found) i := by
  induction found generalizing depth with
  | nil =>
    constructor
    · intro h
      cases h
    · rintro ⟨⟨hmem, -⟩, -⟩
      cases hmem
  | cons x found ih =>
    obtain ⟨a, c⟩ := x
    obtain ⟨hlater, hmore⟩ := List.pairwise_cons.mp hsorted
    rw [List.foldlM_cons, countBrace_eq]
    by_cases hend : c = '\x7d' ∧ depth = 1
    · obtain ⟨rfl, rfl⟩ := hend
      have hleast : IsLeast (balances 1 ((a, '\x7d') :: found)) a := by
        refine ⟨(mem_balances_cons hsorted).mpr (.inl ⟨rfl, rfl⟩), fun j hj => ?_⟩
        obtain ⟨x, hx, rfl⟩ := List.mem_map.mp hj.1
        rcases List.mem_cons.mp hx with rfl | hx
        · exact Nat.le_refl _
        · exact Nat.le_of_lt (hlater x hx)
      rw [if_pos ⟨rfl, rfl⟩]
      constructor
      · rintro ⟨⟩
        exact hleast
      · intro h
        exact congrArg Except.error (hleast.unique h)
    · have hopen : 1 ≤ depth + braceWeight c := by
        unfold braceWeight
        split_ifs with h₁ h₂
        · omega
        · have hdeep : depth ≠ 1 := fun h => hend ⟨h₂, h⟩
          omega
        · omega
      rw [if_neg hend, balances_cons_of_ne hsorted (by omega)]
      exact ih hopen hmore

theorem scanCode_countBrace (source : List Char) (offset : Nat) (depth : Int) :
    scanCode lexicon countBrace none source offset depth =
      (codeChars lexicon source offset none).foldlM (fun depth x => countBrace depth x.1 x.2 [])
        depth := by
  rw [scanCode_eq_foldlM, codeChars_eq, List.foldlM_map]
  rfl

/-- A brace at the beginning is closed by the first one at which the braces balance. -/
theorem matchingBrace_eq_some_iff (hopening : ¬lexicon.IsQuote '\x7b') {rest : List Char}
    {offset i : Nat} :
    matchingBrace lexicon ('\x7b' :: rest) offset = some i ↔
      IsLeast (balances 0 (codeChars lexicon ('\x7b' :: rest) offset none)) i := by
  have hsome : matchingBrace lexicon ('\x7b' :: rest) offset = some i ↔
      scanCode lexicon countBrace none ('\x7b' :: rest) offset 0 = .error i := by
    unfold matchingBrace
    cases scanCode lexicon countBrace none ('\x7b' :: rest) offset 0 <;> simp
  have hnext : Reading.code.next lexicon '\x7b' rest.head? = .code :=
    Reading.next_code_iff.mpr ⟨hopening, by simp⟩
  obtain ⟨found, hfound⟩ : ∃ found, codeChars lexicon ('\x7b' :: rest) offset none =
      (offset, '\x7b') :: found := by
    rw [codeChars_eq, codeFrom, if_pos ⟨rfl, hnext⟩]
    exact ⟨_, rfl⟩
  have hsorted : ((offset, '\x7b') :: found).Pairwise (·.1 < ·.1) := by
    rw [← hfound, ← List.pairwise_map]
    exact pairwise_codeChars _ offset none
  rw [hsome, scanCode_countBrace, hfound, balances_cons_of_ne hsorted (by decide), List.foldlM_cons]
  exact countBraces_eq_error_iff (by decide) hsorted.of_cons

/-- A brace at the beginning is not closed if they balance nowhere. -/
theorem matchingBrace_eq_none_iff (hopening : ¬lexicon.IsQuote '\x7b') {rest : List Char}
    {offset : Nat} :
    matchingBrace lexicon ('\x7b' :: rest) offset = none ↔
      balances 0 (codeChars lexicon ('\x7b' :: rest) offset none) = ∅ := by
  constructor
  · intro hnone
    by_contra hne
    obtain ⟨i, hi, hleast⟩ := wellFounded_lt.has_min _ (Set.nonempty_iff_ne_empty.mpr hne)
    have hfound := (matchingBrace_eq_some_iff hopening).mpr
      ⟨hi, fun j hj => Nat.le_of_not_lt (hleast j hj)⟩
    rw [hnone] at hfound
    cases hfound
  · intro hempty
    cases hmatch : matchingBrace lexicon ('\x7b' :: rest) offset with
    | none => rfl
    | some i =>
      have hi := ((matchingBrace_eq_some_iff hopening).mp hmatch).1
      rw [hempty] at hi
      cases hi

/-- **A scan finds what an automaton reads as code.** It goes through the characters of code from its
beginning to its end in order, and leaves none out; what comes before the end does not depend on the end.
The brace that closes another one is the first character of code from there at which the braces balance;
if there is none, nothing closes it. -/
theorem scan_by_character {lexicon : Lexicon} (hlexicon : lexicon ∈ [Lexicon.script, Lexicon.go])
    (content : List Char) (start : Nat) :
    let scan (stop : Option Int) := codeChars lexicon (content.drop start) start stop
    let balanced := {i | i ∈ (scan none).map (·.1) ∧ openBraces (scan none) i = 0}
    (∀ stop, ((scan stop).map (·.1)).Pairwise (· < ·) ∧
      (∀ i c, (i, c) ∈ scan stop ↔
        lexicon.CodeAt content start i c ∧ ∀ limit ∈ stop, (i : Int) < limit) ∧
      scan stop = (scan none).filter fun x => stop.all ((x.1 : Int) < ·)) ∧
    (content[start]? = some '\x7b' →
      (∀ i, matchingBrace lexicon (content.drop start) start = some i ↔ IsLeast balanced i) ∧
      (matchingBrace lexicon (content.drop start) start = none ↔ balanced = ∅)) := by
  have hopening : ¬lexicon.IsQuote '\x7b' := by
    rcases List.mem_cons.mp hlexicon with rfl | hlexicon
    · exact Lexicon.tells_script.opening
    · rw [List.mem_singleton.mp hlexicon]
      exact Lexicon.tells_go.opening
  refine ⟨fun stop => ⟨pairwise_codeChars _ start stop, fun i c => ?_, codeChars_stop _ start stop⟩,
    fun hbrace => ?_⟩
  · dsimp only
    rw [codeChars_stop, List.mem_filter, mem_codeChars]
    cases stop <;> simp
  · have hsource : content.drop start = '\x7b' :: content.drop (start + 1) :=
      drop_eq_cons_iff.mpr ⟨hbrace, rfl⟩
    have hbalances : balances 0 (codeChars lexicon (content.drop start) start none) =
        {i | i ∈ (codeChars lexicon (content.drop start) start none).map (·.1) ∧
          openBraces (codeChars lexicon (content.drop start) start none) i = 0} := by
      simp only [balances, Int.zero_add]
    dsimp only
    rw [← hbalances, hsource]
    exact ⟨fun i => matchingBrace_eq_some_iff hopening, matchingBrace_eq_none_iff hopening⟩

/-- A block whose template has a closing brace in a literal in its hole, and which has another one in a
comment. -/
def templateBlock : List Char := "a\x7b`$\x7b'\x7d'\x7d`//\x7d\n\x7d".toList

theorem scan_by_character_templateBlock :
    Lexicon.script ∈ [Lexicon.script, Lexicon.go] ∧ templateBlock[1]? = some '\x7b' ∧
      codeChars .script (templateBlock.drop 1) 1 none = [(1, '\x7b'), (13, '\n'), (14, '\x7d')] ∧
      codeChars .script (templateBlock.drop 1) 1 (some 14) = [(1, '\x7b'), (13, '\n')] ∧
      Lexicon.CodeAt .script templateBlock 1 13 '\n' ∧
      matchingBrace .script (templateBlock.drop 1) 1 = some 14 ∧
      IsLeast {i | i ∈ (codeChars .script (templateBlock.drop 1) 1 none).map (·.1) ∧
        openBraces (codeChars .script (templateBlock.drop 1) 1 none) i = 0} 14 := by
  have hlexicon : Lexicon.script ∈ [Lexicon.script, Lexicon.go] := List.mem_cons_self
  have hbrace : templateBlock[1]? = some '\x7b' := by decide +kernel
  have hclose : matchingBrace .script (templateBlock.drop 1) 1 = some 14 := by decide +kernel
  have hcode : (13, '\n') ∈ codeChars .script (templateBlock.drop 1) 1 (some 14) := by decide +kernel
  obtain ⟨hscan, hblock⟩ := scan_by_character hlexicon templateBlock 1
  exact ⟨hlexicon, hbrace, by decide +kernel, by decide +kernel,
    ((hscan (some 14)).2.1 13 '\n').mp hcode |>.1, hclose, ((hblock hbrace).1 14).mp hclose⟩

end Vicinity
