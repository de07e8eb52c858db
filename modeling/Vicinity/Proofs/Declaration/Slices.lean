import Mathlib.Data.Nat.Find
import Mathlib.Order.Bounds.Basic
import Vicinity.Proofs.Declaration.Bounds

/-!
# Which lines a declaration has

The lines of a declaration are found by three scans: one goes up from the reference to a line that
declares a type, and one of two others goes down from there, counting braces or comparing indentations.
`IsDeclarationStart`, `IsBraceEnd` and `IsIndentationEnd` say without any scan where they have to stop.

## What is proved

* `exists_isDeclarationStart`, `exists_braceSlice?`, `exists_indentationSlice?`: the scans stop there.
* `IsSlice.unique`: no other lines are like those of a declaration.
* `slices_exact`: both slices of any list of lines, for any reference.
-/

namespace Vicinity

open Text Text.Pattern

variable {lines : List (List Char)}

/-- The lines from one to another, both of them included. -/
def linesBetween (lines : List (List Char)) (first last : Nat) : List (List Char) :=
  (lines.drop first).take (last + 1 - first)

theorem slice_succ {first stop : Nat} (hfirst : first ≤ stop) (hstop : stop < lines.length) :
    slice lines (first : Int) ((stop : Int) + 1) = linesBetween lines first stop := by
  rw [slice_of_lt hfirst hstop, List.drop_take, linesBetween]

/-! ### The first line -/

/-- The line that is taken for a line number, which may lie outside of the text. -/
def nearestLine (lines : List (List Char)) (line : Int) : Nat :=
  (min (max line 0) (lines.length - 1)).toNat

/-- `start` is the last line at or above `line` that declares a type, or the first line of all if there
is none. -/
structure IsDeclarationStart (lines : List (List Char)) (line : Int) (start : Nat) : Prop where
  le : start ≤ nearestLine lines line
  declares : start = 0 ∨ declarationLine.matchesStart (lines.getD start []) = true
  last : ∀ n, start < n → n ≤ nearestLine lines line →
    declarationLine.matchesStart (lines.getD n []) = false

/-- The search upwards stops at a line that declares a type or at the first one, and passes over no line
that declares a type. -/
theorem nearestDeclaration_spec (lines : List (List Char)) (line : Nat) :
    (nearestDeclaration lines line = 0 ∨
      declarationLine.matchesStart (lines.getD (nearestDeclaration lines line) []) = true) ∧
    ∀ n, nearestDeclaration lines line < n → n ≤ line →
      declarationLine.matchesStart (lines.getD n []) = false := by
  induction line with
  | zero => exact ⟨.inl rfl, fun n hn hle => absurd hle (Nat.not_le.mpr hn)⟩
  | succ line ih =>
    unfold nearestDeclaration
    split
    · rename_i hdeclares
      exact ⟨.inr hdeclares, fun n hn hle => absurd hle (Nat.not_le.mpr hn)⟩
    · rename_i hother
      refine ⟨ih.1, fun n hn hle => ?_⟩
      rcases Nat.lt_or_eq_of_le hle with hlt | rfl
      · exact ih.2 n hn (Nat.le_of_lt_succ hlt)
      · exact Bool.eq_false_iff.mpr hother

theorem nearestLine_ofNat {line : Nat} (h : line < lines.length) : nearestLine lines line = line := by
  unfold nearestLine
  omega

theorem declarationStart_eq_nearest (hne : lines ≠ []) (line : Int) :
    declarationStart lines line = nearestDeclaration lines (nearestLine lines line) := by
  have hlen : 0 < lines.length := List.length_pos_iff.mpr hne
  unfold declarationStart nearestLine
  dsimp only
  split
  · rename_i hle
    have hzero : min (max line 0) (lines.length - 1) = 0 := by omega
    rw [hzero]
    rfl
  · rfl

theorem isDeclarationStart_nearest {line : Nat} (h : line < lines.length) :
    IsDeclarationStart lines line (nearestDeclaration lines line) := by
  have hnearest := nearestLine_ofNat h
  obtain ⟨hstops, hpassed⟩ := nearestDeclaration_spec lines line
  refine ⟨?_, hstops, fun n hn hle => hpassed n hn ?_⟩
  · rw [hnearest]
    exact nearestDeclaration_le lines line
  · rwa [hnearest] at hle

/-- There is only one first line. -/
theorem IsDeclarationStart.unique {line : Int} {a b : Nat} (ha : IsDeclarationStart lines line a)
    (hb : IsDeclarationStart lines line b) : a = b := by
  rcases Nat.lt_trichotomy a b with hlt | heq | hlt
  · have hother := ha.last b hlt hb.le
    rw [hb.declares.resolve_left (Nat.ne_zero_of_lt hlt)] at hother
    cases hother
  · exact heq
  · have hother := hb.last a hlt ha.le
    rw [ha.declares.resolve_left (Nat.ne_zero_of_lt hlt)] at hother
    cases hother

/-- **The search upwards** finds the first line of the declaration. -/
theorem exists_isDeclarationStart (hne : lines ≠ []) (line : Int) :
    ∃ start : Nat, declarationStart lines line = start ∧ IsDeclarationStart lines line start := by
  obtain ⟨hstops, hpassed⟩ := nearestDeclaration_spec lines (nearestLine lines line)
  exact ⟨_, declarationStart_eq_nearest hne line, nearestDeclaration_le lines _, hstops, hpassed⟩

/-! ### The last line by braces -/

/-- Some of the lines has an opening brace, and there are no more opening than closing ones. -/
def BracesClose (ls : List (List Char)) : Prop :=
  (∃ line ∈ ls, '{' ∈ line) ∧ ls.flatten.count '{' ≤ ls.flatten.count '}'

instance : DecidablePred BracesClose := fun _ => inferInstanceAs (Decidable (_ ∧ _))

/-- The lines with which the braces opened from `start` on are closed. -/
def closingLines (lines : List (List Char)) (start : Nat) : Set Nat :=
  {i | start ≤ i ∧ i < lines.length ∧ BracesClose (linesBetween lines start i)}

/-- `stop` is the first line with which the braces opened from `start` on are closed; if they never are,
the declaration goes on to the end of the reference. -/
def IsBraceEnd (lines : List (List Char)) (last : Int) (start stop : Nat) : Prop :=
  IsLeast (closingLines lines start) stop ∨
    closingLines lines start = ∅ ∧ (stop : Int) = min (max last start) (lines.length - 1)

/-- One step of the scan, in terms of the lines that it has gone through. -/
theorem balancingLine_cons (done more : List (List Char)) (line : List Char) (i : Nat) :
    balancingLine i (done.flatten.count '{' - done.flatten.count '}') (done.any (·.contains '{'))
        (line :: more) =
      if BracesClose (done ++ [line]) then some i
      else balancingLine (i + 1)
        ((done ++ [line]).flatten.count '{' - (done ++ [line]).flatten.count '}')
        ((done ++ [line]).any (·.contains '{')) more := by
  have hdepth : (done.flatten.count '{' - done.flatten.count '}' : Int) + line.count '{' -
      line.count '}' = (done ++ [line]).flatten.count '{' - (done ++ [line]).flatten.count '}' := by
    simp only [List.flatten_append, List.flatten_singleton, List.count_append]
    omega
  have hopen : (done.any (·.contains '{') || line.count '{' != 0) =
      (done ++ [line]).any (·.contains '{') := by
    rw [List.any_append, List.any_cons, List.any_nil, Bool.or_false]
    congr 1
    rw [Bool.eq_iff_iff, bne_iff_ne, ← Nat.pos_iff_ne_zero, List.count_pos_iff, List.contains_iff_mem]
  have hclose : ((done ++ [line]).any (·.contains '{') = true ∧
      ((done ++ [line]).flatten.count '{' - (done ++ [line]).flatten.count '}' : Int) ≤ 0) ↔
        BracesClose (done ++ [line]) := by
    simp only [BracesClose, List.any_eq_true, List.contains_iff_mem]
    refine and_congr Iff.rfl ?_
    omega
  rw [balancingLine, hdepth, hopen]
  simp only [Bool.and_eq_true, decide_eq_true_eq, hclose]

/-- **The scan for braces** stops at the first line with which they are closed, the lines gone through
before included. -/
theorem balancingLine_spec (done : List (List Char)) (depth : Int) (seenOpen : Bool)
    (hdepth : depth = done.flatten.count '{' - done.flatten.count '}')
    (hseen : seenOpen = done.any (·.contains '{')) (more : List (List Char)) (i : Nat) :
    match balancingLine i depth seenOpen more with
    | some j => ∃ n < more.length, j = i + n ∧ BracesClose (done ++ more.take (n + 1)) ∧
        ∀ m < n, ¬BracesClose (done ++ more.take (m + 1))
    | none => ∀ n < more.length, ¬BracesClose (done ++ more.take (n + 1)) := by
  subst hdepth hseen
  induction more generalizing done i with
  | nil => exact fun n hn => absurd hn (Nat.not_lt_zero n)
  | cons line more ih =>
    have htake : ∀ n, done ++ (line :: more).take (n + 1) = done ++ [line] ++ more.take n := by
      intro n
      rw [List.take_succ_cons, List.append_assoc, List.singleton_append]
    rw [balancingLine_cons]
    simp only [htake]
    split_ifs with hclose
    · exact ⟨0, Nat.succ_pos _, rfl, by simpa using hclose, fun m hm => absurd hm (Nat.not_lt_zero m)⟩
    · have hrest := ih (done ++ [line]) (i + 1)
      split at hrest
      · obtain ⟨n, hn, rfl, hfound, hbefore⟩ := hrest
        refine ⟨n + 1, Nat.succ_lt_succ hn, by omega, hfound, fun m hm => ?_⟩
        cases m with
        | zero => simpa using hclose
        | succ m => exact hbefore m (Nat.lt_of_succ_lt_succ hm)
      · intro n hn
        cases n with
        | zero => simpa using hclose
        | succ n => exact hrest n (Nat.lt_of_succ_lt_succ hn)

theorem IsBraceEnd.unique {last : Int} {start a b : Nat} (ha : IsBraceEnd lines last start a)
    (hb : IsBraceEnd lines last start b) : a = b := by
  rcases ha with ha | ⟨hempty, ha⟩
  · rcases hb with hb | ⟨hempty, -⟩
    · exact ha.unique hb
    · exact absurd (hempty ▸ ha.1) (Set.notMem_empty a)
  · rcases hb with hb | ⟨-, hb⟩
    · exact absurd (hempty ▸ hb.1) (Set.notMem_empty b)
    · omega

/-- From the first line of a declaration on, the scan finds the first line with which its braces are
closed. -/
theorem isLeast_of_balancingLine {start j : Nat}
    (h : balancingLine start 0 false (lines.drop start) = some j) :
    IsLeast (closingLines lines start) j := by
  have hscan := balancingLine_spec [] 0 false rfl rfl (lines.drop start) start
  rw [h] at hscan
  obtain ⟨n, hn, rfl, hclose, hbefore⟩ := hscan
  rw [List.length_drop] at hn
  have hbetween : ∀ m, (lines.drop start).take (m + 1) = linesBetween lines start (start + m) := by
    intro m
    rw [linesBetween]
    congr 1
    omega
  refine ⟨⟨Nat.le_add_right start n, by omega, hbetween n ▸ hclose⟩, ?_⟩
  rintro i ⟨hle, -, hi⟩
  obtain ⟨m, rfl⟩ := Nat.exists_eq_add_of_le hle
  by_contra hlt
  exact hbefore m (by omega) (hbetween m ▸ hi)

theorem closingLines_eq_empty {start : Nat}
    (h : balancingLine start 0 false (lines.drop start) = none) : closingLines lines start = ∅ := by
  have hscan := balancingLine_spec [] 0 false rfl rfl (lines.drop start) start
  rw [h] at hscan
  refine Set.eq_empty_iff_forall_notMem.mpr ?_
  rintro i ⟨hle, hi, hclose⟩
  refine hscan (i - start) (by rw [List.length_drop]; omega) ?_
  rwa [linesBetween, Nat.succ_sub hle] at hclose

/-- **A brace-delimited declaration** has the lines that it should have. -/
theorem exists_braceSlice? (hne : lines ≠ []) (first last : Int) :
    ∃ start stop : Nat, braceSlice? lines first last = some ((start : Int), (stop : Int)) ∧
      IsDeclarationStart lines first start ∧ IsBraceEnd lines last start stop := by
  obtain ⟨start, hstart, hspec⟩ := exists_isDeclarationStart hne first
  have hbounds := declarationStart_bounds hne first
  have hempty : lines.isEmpty = false := List.isEmpty_eq_false_iff.mpr hne
  rw [hstart] at hbounds
  unfold braceSlice?
  simp only [hempty, hstart, Bool.false_eq_true, if_false, Int.toNat_natCast]
  cases hscan : balancingLine start 0 false (lines.drop start) with
  | some j =>
    have hleast := isLeast_of_balancingLine hscan
    have hlt := hleast.1.2.1
    have hmin : min (j : Int) (lines.length - 1) = j := by omega
    exact ⟨start, j, by rw [hmin], hspec, .inl hleast⟩
  | none =>
    obtain ⟨stop, hstop⟩ := Int.eq_ofNat_of_zero_le
      (show 0 ≤ min (max last start) (lines.length - 1 : Int) by omega)
    exact ⟨start, stop, by rw [hstop], hspec, .inr ⟨closingLines_eq_empty hscan, hstop.symm⟩⟩

/-! ### The last line by indentation -/

/-- `stop` is the last line before the first one that is indented less than the line `start`; blank lines
do not count. -/
structure IsIndentationEnd (lines : List (List Char)) (start stop : Nat) : Prop where
  notBlank : stop = start ∨ allBlank (lines.getD stop []) = false
  inside : ∀ n, start < n → n ≤ stop → allBlank (lines.getD n []) = false →
    indentation (lines.getD start []) ≤ indentation (lines.getD n [])
  after : ∀ n, stop < n → n < lines.length → allBlank (lines.getD n []) = false →
    (∀ m, stop < m → m < n → allBlank (lines.getD m []) = true) →
    indentation (lines.getD n []) < indentation (lines.getD start [])

/-- **The scan for an indentation** stops before the first line that is indented less, at a line that is
not blank. -/
theorem lastIndented_spec {i last : Nat} {more : List (List Char)} (column : Nat)
    (hmore : lines.drop i = more) (hlast : last < i) :
    (lastIndented column i last more = last ∨ i ≤ lastIndented column i last more ∧
      allBlank (lines.getD (lastIndented column i last more) []) = false) ∧
    (∀ n, i ≤ n → n ≤ lastIndented column i last more → allBlank (lines.getD n []) = false →
      column ≤ indentation (lines.getD n [])) ∧
    ∀ n, i ≤ n → lastIndented column i last more < n → n < lines.length →
      allBlank (lines.getD n []) = false →
      (∀ m, i ≤ m → lastIndented column i last more < m → m < n → allBlank (lines.getD m []) = true) →
      indentation (lines.getD n []) < column := by
  induction more generalizing i last with
  | nil =>
    have hlen : lines.length ≤ i := List.drop_eq_nil_iff.mp hmore
    simp only [lastIndented]
    exact ⟨.inl trivial, fun n hn hle => absurd hle (by omega), fun n hn _ hlt => absurd hlt (by omega)⟩
  | cons line more ih =>
    have hline : lines.getD i [] = line := by
      rw [List.getD_eq_getElem?_getD, ← List.head?_drop, hmore]
      rfl
    have hnext : lines.drop (i + 1) = more := by
      rw [← List.tail_drop, hmore, List.tail_cons]
    rw [lastIndented]
    split_ifs with hblank hless
    · -- a blank line is passed over
      obtain ⟨hstop, hinside, hafter⟩ := ih hnext (Nat.lt_succ_of_lt hlast)
      refine ⟨hstop.imp_right fun h => ⟨Nat.le_of_succ_le h.1, h.2⟩, fun n hn hle hn' => ?_,
        fun n hn hlt hlen hn' hbetween => ?_⟩
      · rcases Nat.eq_or_lt_of_le hn with rfl | hn
        · rw [hline, hblank] at hn'
          cases hn'
        · exact hinside n hn hle hn'
      · rcases Nat.eq_or_lt_of_le hn with rfl | hn
        · rw [hline, hblank] at hn'
          cases hn'
        · exact hafter n hn hlt hlen hn' fun m hm => hbetween m (Nat.le_of_succ_le hm)
    · -- a line that is indented less ends the scan
      refine ⟨.inl rfl, fun n hn hle => absurd hle (by omega), fun n hn hlt _ _ hbetween => ?_⟩
      rcases Nat.eq_or_lt_of_le hn with rfl | hn
      · rwa [hline]
      · have := hbetween i (Nat.le_refl i) hlast hn
        rw [hline] at this
        exact absurd this hblank
    · -- any other line is the last one so far
      obtain ⟨hstop, hinside, hafter⟩ := ih hnext (Nat.lt_succ_self i)
      have hblank : allBlank (lines.getD i []) = false := by
        rw [hline]
        exact Bool.eq_false_iff.mpr hblank
      have hle : i ≤ lastIndented column (i + 1) i more := by
        rcases hstop with hstop | hstop
        · exact hstop.ge
        · exact Nat.le_of_succ_le hstop.1
      refine ⟨.inr ⟨hle, ?_⟩, fun n hn hle hn' => ?_, fun n hn hlt hlen hn' hbetween => ?_⟩
      · rcases hstop with hstop | hstop
        · rwa [hstop]
        · exact hstop.2
      · rcases Nat.eq_or_lt_of_le hn with rfl | hn
        · rw [hline]
          exact Nat.le_of_not_lt hless
        · exact hinside n hn hle hn'
      · exact hafter n (by omega) hlt hlen hn' fun m hm => hbetween m (Nat.le_of_succ_le hm)

/-- A line below the end that is not blank is indented less, or comes after one that is. -/
theorem IsIndentationEnd.exists_less {start stop n : Nat} (h : IsIndentationEnd lines start stop)
    (hlt : stop < n) (hlen : n < lines.length) (hn : allBlank (lines.getD n []) = false) :
    ∃ m, stop < m ∧ m ≤ n ∧ allBlank (lines.getD m []) = false ∧
      indentation (lines.getD m []) < indentation (lines.getD start []) := by
  -- the first line below the end that is not blank
  have hexists : ∃ m, stop < m ∧ allBlank (lines.getD m []) = false := ⟨n, hlt, hn⟩
  obtain ⟨hfirst, hnot⟩ := Nat.find_spec hexists
  have hle : Nat.find hexists ≤ n := Nat.find_min' hexists ⟨hlt, hn⟩
  refine ⟨_, hfirst, hle, hnot, h.after _ hfirst (Nat.lt_of_le_of_lt hle hlen) hnot fun m hm hmin => ?_⟩
  exact Bool.eq_true_of_not_eq_false fun hblank => Nat.find_min hexists hmin ⟨hm, hblank⟩

theorem IsIndentationEnd.le {start a b : Nat} (ha : IsIndentationEnd lines start a)
    (hb : IsIndentationEnd lines start b) (hstart : start ≤ a) (hlen : b < lines.length) : b ≤ a := by
  by_contra hlt
  have hlt : a < b := Nat.lt_of_not_le hlt
  obtain ⟨m, hm, hle, hnot, hless⟩ := ha.exists_less hlt hlen (hb.notBlank.resolve_left (by omega))
  exact Nat.not_le_of_lt hless (hb.inside m (Nat.lt_of_le_of_lt hstart hm) hle hnot)

/-- **An indentation-delimited declaration** has the lines that it should have. -/
theorem exists_indentationSlice? (hne : lines ≠ []) (line : Int) :
    ∃ start stop : Nat, indentationSlice? lines line = some ((start : Int), (stop : Int)) ∧
      IsDeclarationStart lines line start ∧ IsIndentationEnd lines start stop := by
  obtain ⟨start, hstart, hspec⟩ := exists_isDeclarationStart hne line
  have hempty : lines.isEmpty = false := List.isEmpty_eq_false_iff.mpr hne
  obtain ⟨hstop, hinside, hafter⟩ := lastIndented_spec (indentation (lines.getD start []))
    (rfl : lines.drop (start + 1) = _) (Nat.lt_succ_self start)
  unfold indentationSlice?
  simp only [hempty, hstart, Bool.false_eq_true, if_false, Int.toNat_natCast]
  refine ⟨start, _, rfl, hspec, hstop.imp_right (·.2), hinside, fun n hlt hlen hn hbetween => ?_⟩
  have hle : start + 1 ≤ n := by
    rcases hstop with hstop | hstop <;> omega
  exact hafter n hle hlt hlen hn fun m _ => hbetween m

/-! ### Both slices -/

/-- `stop` is the last line of a declaration that begins with the line `start`. -/
def IsDeclarationEnd (lines : List (List Char)) (last : Int) (start stop : Nat) :
    LanguageFamily → Prop
  | .brace => IsBraceEnd lines last start stop
  | .indentation => IsIndentationEnd lines start stop

/-- The lines from `start` to `stop` are those of the declaration around a reference that goes from the
line `first` to the line `last`. -/
structure IsSlice (lines : List (List Char)) (family : LanguageFamily) (first last : Int)
    (start stop : Nat) : Prop where
  start_le : start ≤ stop
  stop_lt : stop < lines.length
  isStart : IsDeclarationStart lines first start
  isEnd : IsDeclarationEnd lines last start stop family

/-- There are no other lines like it. -/
theorem IsSlice.unique {family : LanguageFamily} {first last : Int} {a b c d : Nat}
    (h : IsSlice lines family first last a b) (h' : IsSlice lines family first last c d) :
    a = c ∧ b = d := by
  obtain ⟨hle, hlt, hstart, hstop⟩ := h
  obtain ⟨hle', hlt', hstart', hstop'⟩ := h'
  have heq := hstart.unique hstart'
  subst heq
  refine ⟨rfl, ?_⟩
  cases family with
  | brace => exact IsBraceEnd.unique hstop hstop'
  | indentation =>
    exact Nat.le_antisymm (IsIndentationEnd.le hstop' hstop hle' hlt)
      (IsIndentationEnd.le hstop hstop' hle hlt')

/-- Around every reference there are the lines of a declaration, and the scans of its family find them. -/
theorem exists_isSlice (hne : lines ≠ []) (family : LanguageFamily) (first last : Int) :
    ∃ start stop : Nat, IsSlice lines family first last start stop ∧
      (family = .brace → braceSlice? lines first last = some ((start : Int), (stop : Int))) ∧
      (family = .indentation → indentationSlice? lines first = some ((start : Int), (stop : Int))) := by
  cases family with
  | brace =>
    obtain ⟨start, stop, hbrace, hstart, hstop⟩ := exists_braceSlice? hne first last
    have hbounds := bounds_of_braceSlice? hbrace
    exact ⟨start, stop, ⟨by omega, by omega, hstart, hstop⟩, fun _ => hbrace, nofun⟩
  | indentation =>
    obtain ⟨start, stop, hindent, hstart, hstop⟩ := exists_indentationSlice? hne first
    have hbounds := bounds_of_indentationSlice? hindent
    exact ⟨start, stop, ⟨by omega, by omega, hstart, hstop⟩, nofun, fun _ => hindent⟩

/-- **Which lines a declaration has.** The slice of any list of lines around a reference, which may lie
anywhere, begins and ends in the list; it begins with the last line at or above the reference that
declares a type. By braces, it ends where those that have been opened are closed; by indentation, before
the first line that is indented less. -/
theorem slices_exact (hne : lines ≠ []) (first last : Int) :
    (∃ start stop : Nat, braceSlice? lines first last = some ((start : Int), (stop : Int)) ∧
      IsSlice lines .brace first last start stop) ∧
    ∃ start stop : Nat, indentationSlice? lines first = some ((start : Int), (stop : Int)) ∧
      IsSlice lines .indentation first last start stop := by
  obtain ⟨start, stop, hslice, hbrace, -⟩ := exists_isSlice hne .brace first last
  obtain ⟨start', stop', hslice', -, hindent⟩ := exists_isSlice hne .indentation first last
  exact ⟨⟨start, stop, hbrace rfl, hslice⟩, start', stop', hindent rfl, hslice'⟩

/-- A declaration whose braces are never closed, among lines with blank ones and one that is indented
less. -/
def openClass : List (List Char) :=
  ["x", "  class A \x7b", "    b: \x7b", "", "    \x7d", "  y", "", "z"].map String.toList

theorem slices_exact_openClass :
    openClass ≠ [] ∧ braceSlice? openClass 100 (-3) = some (1, 1) ∧
      IsSlice openClass .brace 100 (-3) 1 1 ∧ indentationSlice? openClass 100 = some (1, 5) ∧
      IsSlice openClass .indentation 100 (-3) 1 5 := by
  have hne : openClass ≠ [] := by decide
  have hbrace : braceSlice? openClass 100 (-3) = some (1, 1) := by decide +kernel
  have hindent : indentationSlice? openClass 100 = some (1, 5) := by decide +kernel
  obtain ⟨⟨start, stop, h, hslice⟩, start', stop', h', hslice'⟩ := slices_exact hne 100 (-3)
  rw [hbrace, Option.some.injEq, Prod.mk.injEq] at h
  rw [hindent, Option.some.injEq, Prod.mk.injEq] at h'
  obtain ⟨rfl, rfl⟩ : start = 1 ∧ stop = 1 := by omega
  obtain ⟨rfl, rfl⟩ : start' = 1 ∧ stop' = 5 := by omega
  exact ⟨hne, hbrace, hslice, hindent, hslice'⟩

end Vicinity
