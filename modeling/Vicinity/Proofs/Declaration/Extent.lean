import Vicinity.Proofs.Declaration.Identity

/-!
# Whether a declaration stands around its reference

The first line of a declaration is looked for from the reference upwards, the last one from there
downwards, without regard to where the reference is. So a declaration that is over before the reference
begins is returned as well as one that stands around it.

## What is proved

* `IsSlice.le_stop_iff`: how far down the lines of a declaration go.
* `expand_encloses_iff`: when the declaration that is returned stands around the line on which the
  reference begins.
* `expand_closed_above`: it may be over before.
-/

namespace Vicinity

open Text

variable {ls : List (List Char)} {text : List Char} {reference : Span} {family : LanguageFamily}
  {start stop line : Nat}

/-- A declaration that begins with the line `start` goes down to the line `line`. By braces: those that
are opened are not closed before, and they are closed later or the reference goes on to that line. By
indentation: some line from there on is not blank, and no line up to it is indented less. -/
def ComesDownTo (ls : List (List Char)) (last : Int) (start line : Nat) : LanguageFamily → Prop
  | .brace =>
    (∀ i ∈ closingLines ls start, line ≤ i) ∧ ((closingLines ls start).Nonempty ∨ (line : Int) ≤ last)
  | .indentation => ∃ n, line ≤ n ∧ n < ls.length ∧ allBlank (ls.getD n []) = false ∧
    ∀ m, start < m → m ≤ n → allBlank (ls.getD m []) = false →
      indentation (ls.getD start []) ≤ indentation (ls.getD m [])

/-! ### How far down the lines go -/

theorem IsBraceEnd.le_stop_iff {last : Int} (h : IsBraceEnd ls last start stop) (hstart : start < line)
    (hin : line < ls.length) : line ≤ stop ↔ ComesDownTo ls last start line .brace := by
  rcases h with hleast | ⟨hempty, hstop⟩
  · constructor
    · exact fun hle => ⟨fun i hi => Nat.le_trans hle (hleast.2 hi), .inl ⟨stop, hleast.1⟩⟩
    · exact fun hdown => hdown.1 stop hleast.1
  · constructor
    · exact fun hle => ⟨fun i hi => absurd (hempty ▸ hi) (Set.notMem_empty i), .inr (by omega)⟩
    · intro hdown
      have hlast := hdown.2.resolve_left (Set.not_nonempty_iff_eq_empty.mpr hempty)
      omega

theorem IsIndentationEnd.le_stop_iff (h : IsIndentationEnd ls start stop) (hle : start ≤ stop)
    (hlt : stop < ls.length) (hstart : start < line) (last : Int) :
    line ≤ stop ↔ ComesDownTo ls last start line .indentation := by
  constructor
  · exact fun hline => ⟨stop, hline, hlt, h.notBlank.resolve_left (by omega), h.inside⟩
  · rintro ⟨n, hn, hlen, hnot, hinside⟩
    by_contra hover
    obtain ⟨m, hm, hmn, hblank, hless⟩ := h.exists_less (by omega) hlen hnot
    exact Nat.not_le_of_lt hless (hinside m (Nat.lt_of_le_of_lt hle hm) hmn hblank)

/-- **How far down the lines of a declaration go.** -/
theorem IsSlice.le_stop_iff {first last : Int} (h : IsSlice ls family first last start stop)
    (hin : line < ls.length) :
    line ≤ stop ↔ line ≤ start ∨ ComesDownTo ls last start line family := by
  obtain ⟨hle, hlt, -, hstop⟩ := h
  rcases Nat.lt_or_ge start line with hstart | hline
  · rw [or_iff_right (Nat.not_le_of_lt hstart)]
    cases family with
    | brace => exact IsBraceEnd.le_stop_iff hstop hstart hin
    | indentation => exact IsIndentationEnd.le_stop_iff hstop hle hlt hstart last
  · exact iff_of_true (Nat.le_trans hline hle) (.inl hline)

/-! ### Around the reference -/

/-- A reference that covers something does not end before it begins. -/
theorem start_le_stop_of_textIn (h : textIn text reference ≠ []) (hpos : 0 ≤ reference.start.line) :
    reference.start.line ≤ reference.stop.line := by
  by_contra hlt
  have hover : min reference.stop.line ((lines text).length - 1 : Int) <
      (max reference.start.line 0).toNat := by omega
  refine h ?_
  unfold textIn sliceLines
  simp only [if_pos hover, ite_self]

/-- The text of a reference that stands in for a declaration covers something. -/
theorem stop_of_shortForm? {declaration : Declaration}
    (h : shortForm? text reference = some declaration) (hpos : 0 ≤ reference.start.line) :
    reference.start.line ≤ reference.stop.line := by
  have hcovers : textIn text reference ≠ [] := by
    intro hnil
    rw [shortForm?, hnil] at h
    cases h
  exact start_le_stop_of_textIn hcovers hpos

/-- **When a declaration stands around the line on which its reference begins.** It always begins there or
above; and it is not over before if the text of the reference stands in for it, or else if it begins on
that line or goes down to it. -/
theorem expand_encloses_iff {declaration : Declaration} (hline : reference.start.line = line)
    (h : expand? text reference family = some declaration) :
    declaration.span.start.line ≤ line ∧
      (line ≤ declaration.span.stop.line ↔ declaration.span = reference ∨ ∃ start,
        IsDeclarationStart (lines text) line start ∧
          (start = line ∨ ComesDownTo (lines text) reference.stop.line start line family)) := by
  obtain ⟨hin, start, stop, hslice, ⟨-, rfl⟩ | ⟨-, hshort⟩⟩ := exists_of_expand? h
  · rw [hline] at hin hslice
    have hin : line < (lines text).length := Int.ofNat_lt.mp hin
    have hle : start ≤ line := nearestLine_ofNat hin ▸ hslice.isStart.le
    refine ⟨Int.ofNat_le.mpr hle, Int.ofNat_le.trans ⟨fun hdown => .inr ⟨start, hslice.isStart, ?_⟩, ?_⟩⟩
    · exact ((hslice.le_stop_iff hin).mp hdown).imp_left (Nat.le_antisymm hle)
    · rintro (hspan | ⟨start', hstart, hdown⟩)
      · -- a reference that covers the very lines of the declaration
        rw [← hspan] at hline
        exact Int.ofNat_inj.mp hline ▸ hslice.start_le
      · obtain rfl := hslice.isStart.unique hstart
        exact (hslice.le_stop_iff hin).mpr (hdown.imp_left (·.ge))
  · rw [span_of_shortForm? hshort, hline]
    have hstop := stop_of_shortForm? hshort (by omega)
    exact ⟨Int.le_refl _, iff_of_true (hline ▸ hstop) (.inl rfl)⟩

theorem expand_encloses_member :
    ∃ declaration, expand? memberText (.of 2 5 2 6) .brace = some declaration ∧
      declaration.span = .of 1 0 3 1 ∧ declaration.span.start.line ≤ 2 ∧
      ∃ start, IsDeclarationStart (lines memberText) 2 start ∧
        (start = 2 ∨ ComesDownTo (lines memberText) 2 start 2 .brace) := by
  have hexpand : expand? memberText (.of 2 5 2 6) .brace =
      some ⟨"interface A \x7b\n  b: B\n\x7d".toList, .of 1 0 3 1⟩ := by decide +kernel
  obtain ⟨habove, hdown⟩ := expand_encloses_iff (rfl : _ = ((2 : Nat) : Int)) hexpand
  exact ⟨_, hexpand, rfl, habove, (hdown.mp (by decide)).resolve_left (by decide)⟩

/-- **A declaration that is over before the reference begins is returned all the same**, be it closed by a
brace or by a line that is indented less. -/
theorem expand_closed_above :
    expand? "interface A \x7b\n\x7d\nlet b = 1".toList (.of 2 4 2 5) .brace =
        some ⟨"interface A \x7b\n\x7d".toList, .of 0 0 1 1⟩ ∧
      expand? "  class A:\n    b: B\nc = 1".toList (.of 2 0 2 1) .indentation =
        some ⟨"  class A:\n    b: B".toList, .of 0 0 1 8⟩ := by
  decide +kernel

end Vicinity
