import Vicinity.Proofs.Declaration.Slices

/-!
# The identity of a declaration

A declaration is known by the span of its lines, so that it is recognized again from wherever it has been
come to. The span does not depend on the reference, but for the first line that is found from there, and
expanding it leads to the same declaration.

## What is proved

* `expand?_eq`: what is returned for a reference, in terms of the lines around it.
* `trim_text_of_expand?`: the text of an expanded reference is what its span covers.
* `IsSlice.self`: the lines of a declaration are the lines around themselves.
* `declarations_canonical`: a declaration is expanded to itself, and references that have the same first
  line are expanded to one declaration.
-/

namespace Vicinity

open Text

/-! ### What is returned -/

/-- The lines are shown as a declaration: they are not blank, and they do not begin with a header
marker. -/
def IsShown (ls : List (List Char)) : Prop :=
  allBlank (unlines ls) = false ∧ String.ofList (firstWord (unlines ls)) ∉ headerMarkers

instance : DecidablePred IsShown := fun _ => inferInstanceAs (Decidable (_ ∧ _))

/-- The declaration that has the lines from `start` to `stop`. -/
def declarationOf (ls : List (List Char)) (start stop : Nat) : Declaration :=
  ⟨trimEnd (unlines (linesBetween ls start stop)), .of start 0 stop (ls.getD stop []).length⟩

/-- The text of the reference itself, if it is not blank. -/
def shortForm? (text : List Char) (reference : Span) : Option Declaration :=
  if (trim (textIn text reference)).isEmpty then none
  else some ⟨trim (textIn text reference), reference⟩

/-- The reference is expanded to whole lines. -/
def IsExpanded (text : List Char) (reference : Span) (family : LanguageFamily) : Prop :=
  ∃ start stop,
    IsSlice (lines text) family reference.start.line reference.stop.line start stop ∧
      IsShown (linesBetween (lines text) start stop)

theorem isShown_iff {ls : List (List Char)} :
    (!allBlank (unlines ls) && !headerMarkers.contains (String.ofList (firstWord (unlines ls)))) =
      true ↔ IsShown ls := by
  simp [IsShown]

variable {text : List Char} {reference : Span} {family : LanguageFamily} {start stop : Nat}

/-- The slice around a reference is the one that it should be. -/
theorem IsSlice.slice?_eq {ls : List (List Char)} {first last : Int}
    (h : IsSlice ls family first last start stop) :
    (family = .brace → braceSlice? ls first last = some ((start : Int), (stop : Int))) ∧
      (family = .indentation → indentationSlice? ls first = some ((start : Int), (stop : Int))) := by
  have hne : ls ≠ [] := List.ne_nil_of_length_pos (Nat.zero_lt_of_lt h.stop_lt)
  obtain ⟨a, b, hslice, hscans⟩ := exists_isSlice hne family first last
  obtain ⟨rfl, rfl⟩ := h.unique hslice
  exact hscans

/-- **What is returned for a reference**: the declaration that has the lines around it or, if they are not
shown, the short form. -/
theorem expand?_eq (hin : reference.start.line < (lines text).length)
    (hslice : IsSlice (lines text) family reference.start.line reference.stop.line start stop) :
    expand? text reference family =
      if IsShown (linesBetween (lines text) start stop) then
        some (declarationOf (lines text) start stop)
      else shortForm? text reference := by
  obtain ⟨hbrace, hindent⟩ := hslice.slice?_eq
  have hraw := slice_succ hslice.start_le hslice.stop_lt
  unfold expand?
  cases family with
  | brace | indentation =>
    simp only [if_neg (Int.not_le.mpr hin), hbrace, hindent, hraw, allBlank_trimEnd, firstWord_trimEnd,
      isShown_iff, Int.toNat_natCast]
    rfl

/-- What is returned are the lines around the reference, if they are shown, and otherwise the short
form. -/
theorem exists_of_expand? {declaration : Declaration}
    (h : expand? text reference family = some declaration) :
    reference.start.line < (lines text).length ∧ ∃ start stop,
      IsSlice (lines text) family reference.start.line reference.stop.line start stop ∧
      (IsShown (linesBetween (lines text) start stop) ∧
          declaration = declarationOf (lines text) start stop ∨
        ¬IsShown (linesBetween (lines text) start stop) ∧ shortForm? text reference = some declaration) := by
  have hin : reference.start.line < (lines text).length := by
    by_contra hout
    unfold expand? at h
    dsimp only at h
    rw [if_pos (Int.not_lt.mp hout)] at h
    cases h
  obtain ⟨start, stop, hslice, -⟩ := exists_isSlice (splitOn_ne_nil '\n' text) family
    reference.start.line reference.stop.line
  refine ⟨hin, start, stop, hslice, ?_⟩
  rw [expand?_eq hin hslice] at h
  split_ifs at h with hshown
  · cases h
    exact .inl ⟨hshown, rfl⟩
  · exact .inr ⟨hshown, h⟩

theorem span_of_shortForm? {declaration : Declaration}
    (h : shortForm? text reference = some declaration) : declaration.span = reference := by
  unfold shortForm? at h
  split_ifs at h
  cases h
  rfl

/-- **The span of a declaration covers its text** but for blanks at the ends, whether the reference has
been expanded or its own text stands in. -/
theorem trim_text_of_expand? {declaration : Declaration}
    (h : expand? text reference family = some declaration) :
    trim declaration.text = trim (textIn text declaration.span) := by
  obtain ⟨-, start, stop, hslice, ⟨-, rfl⟩ | ⟨-, hshort⟩⟩ := exists_of_expand? h
  · show trim (trimEnd (unlines (linesBetween (lines text) start stop))) = trim (sliceLines _ _)
    rw [trim_trimEnd, ← slice_succ hslice.start_le hslice.stop_lt,
      ← sliceLines_of_lines hslice.start_le hslice.stop_lt]
    rfl
  · unfold shortForm? at hshort
    split_ifs at hshort
    cases hshort
    exact trim_trim _

/-! ### Expanding again -/

/-- The first line of a declaration is the first one also as seen from itself. -/
theorem IsDeclarationStart.self {ls : List (List Char)} {line : Int}
    (h : IsDeclarationStart ls line start) (hin : start < ls.length) :
    IsDeclarationStart ls start start := by
  have hnearest := nearestLine_ofNat hin
  exact ⟨hnearest.ge, h.declares, fun n hlt hle => absurd hlt (by omega)⟩

/-- **The lines of a declaration are the lines around themselves.** -/
theorem IsSlice.self {ls : List (List Char)} {first last : Int}
    (h : IsSlice ls family first last start stop) : IsSlice ls family start stop start stop := by
  obtain ⟨hle, hlt, hstart, hstop⟩ := h
  refine ⟨hle, hlt, hstart.self (Nat.lt_of_le_of_lt hle hlt), ?_⟩
  cases family with
  | brace =>
    rcases hstop with hleast | ⟨hempty, hstop⟩
    · exact .inl hleast
    · exact .inr ⟨hempty, by omega⟩
  | indentation => exact hstop

/-- The last line depends on the reference only if braces are never closed. -/
theorem IsSlice.of_isStart {ls : List (List Char)} {first last first' : Int}
    (h : IsSlice ls family first last start stop) (hstart : IsDeclarationStart ls first' start)
    (hclose : family = .brace → (closingLines ls start).Nonempty) (last' : Int) :
    IsSlice ls family first' last' start stop := by
  obtain ⟨hle, hlt, -, hstop⟩ := h
  refine ⟨hle, hlt, hstart, ?_⟩
  cases family with
  | brace =>
    rcases hstop with hleast | ⟨hempty, -⟩
    · exact .inl hleast
    · exact absurd hempty (hclose rfl).ne_empty
  | indentation => exact hstop

/-- **The identity of a declaration is canonical.** Expanding the span of a declaration gives it again;
and two references that begin in the text are expanded to the same declaration if they are below the same
line that declares a type, or neither is below one, provided that the braces which are opened there are
closed. -/
theorem declarations_canonical (text : List Char) (family : LanguageFamily) :
    (∀ reference declaration, expand? text reference family = some declaration →
      expand? text declaration.span family = some declaration) ∧
    ∀ (a b : Span) (start : Nat), a.start.line < (lines text).length →
      b.start.line < (lines text).length → IsDeclarationStart (lines text) a.start.line start →
      IsDeclarationStart (lines text) b.start.line start → IsExpanded text a family →
      (family = .brace → (closingLines (lines text) start).Nonempty) →
      ∃ declaration, expand? text a family = some declaration ∧
        expand? text b family = some declaration := by
  refine ⟨fun reference declaration h => ?_, fun a b start ha hb hstart hstart' hexpanded hclose => ?_⟩
  · obtain ⟨hin, start, stop, hslice, ⟨hshown, rfl⟩ | ⟨-, hshort⟩⟩ := exists_of_expand? h
    · have hlt := Nat.lt_of_le_of_lt hslice.start_le hslice.stop_lt
      have hagain : IsSlice (lines text) family (declarationOf (lines text) start stop).span.start.line
          (declarationOf (lines text) start stop).span.stop.line start stop := hslice.self
      rw [expand?_eq (Int.ofNat_lt.mpr hlt) hagain, if_pos hshown]
    · rwa [span_of_shortForm? hshort]
  · obtain ⟨first, stop, hslice, hshown⟩ := hexpanded
    obtain rfl := hslice.isStart.unique hstart
    have hslice' := hslice.of_isStart hstart' hclose b.stop.line
    exact ⟨_, by rw [expand?_eq ha hslice, if_pos hshown], by rw [expand?_eq hb hslice', if_pos hshown]⟩

/-- A declaration with a member, below another line. -/
def memberText : List Char := "let x\ninterface A \x7b\n  b: B\n\x7d".toList

/-- A reference to the member and one that runs backwards from the first line. -/
theorem declarations_canonical_member :
    IsSlice (lines memberText) .brace 2 2 1 3 ∧ IsDeclarationStart (lines memberText) 1 1 ∧
      IsExpanded memberText (.of 2 5 2 6) .brace ∧ (closingLines (lines memberText) 1).Nonempty ∧
      ∃ declaration, expand? memberText (.of 2 5 2 6) .brace = some declaration ∧
        expand? memberText (.of 1 10 0 0) .brace = some declaration := by
  have hne : lines memberText ≠ [] := splitOn_ne_nil '\n' memberText
  have hbrace : braceSlice? (lines memberText) 2 2 = some (1, 3) := by decide +kernel
  obtain ⟨start, stop, hslice, h, -⟩ := exists_isSlice hne .brace 2 2
  rw [hbrace] at h
  have h := Prod.mk.inj (Option.some.inj (h rfl))
  obtain ⟨rfl, rfl⟩ : start = 1 ∧ stop = 3 := by omega
  have hstart : IsDeclarationStart (lines memberText) 1 1 := hslice.isStart.self (by decide +kernel)
  have hexpanded : IsExpanded memberText (.of 2 5 2 6) .brace := ⟨1, 3, hslice, by decide +kernel⟩
  have hclosed : (closingLines (lines memberText) 1).Nonempty :=
    ⟨3, by decide, by decide +kernel, by decide +kernel⟩
  exact ⟨hslice, hstart, hexpanded, hclosed,
    (declarations_canonical memberText .brace).2 (.of 2 5 2 6) (.of 1 10 0 0) 1
      (by decide +kernel) (by decide +kernel) hslice.isStart hstart hexpanded fun _ => hclosed⟩

end Vicinity
