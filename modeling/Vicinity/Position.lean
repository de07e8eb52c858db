/-!
# Positions and spans

A position is a line and a column, both counted from zero; positions are ordered line first. A span
reaches from one position to another. Coordinates come from outside and may be any integers, so a
span may lie outside its text or run backwards.
-/

namespace Vicinity

/-- A place in a text. -/
structure Position where
  line : Int
  column : Int
  deriving DecidableEq, Repr, Inhabited

namespace Position

/-- Reading order: by line, then by column. -/
protected def le (p q : Position) : Bool :=
  p.line < q.line || (p.line == q.line && p.column ≤ q.column)

/-- Strict reading order. -/
protected def lt (p q : Position) : Bool := p.le q && p != q

theorem le_iff {p q : Position} :
    p.le q ↔ p.line < q.line ∨ p.line = q.line ∧ p.column ≤ q.column := by
  simp [Position.le]

theorem lt_iff {p q : Position} :
    p.lt q ↔ p.line < q.line ∨ p.line = q.line ∧ p.column < q.column := by
  cases p
  cases q
  simp only [Position.lt, Position.le, Bool.and_eq_true, Bool.or_eq_true, decide_eq_true_eq,
    beq_iff_eq, bne_iff_ne, ne_eq, Position.mk.injEq]
  omega

theorem le_of_lt {p q : Position} (h : p.lt q) : p.le q := by
  rw [lt_iff] at h
  rw [le_iff]
  omega

theorem le_refl (p : Position) : p.le p := by
  simp [Position.le]

theorem le_trans {p q r : Position} (h₁ : p.le q) (h₂ : q.le r) : p.le r := by
  simp only [Position.le, Bool.or_eq_true, Bool.and_eq_true, decide_eq_true_eq, beq_iff_eq] at *
  omega

theorem le_total (p q : Position) : p.le q || q.le p := by
  simp only [Position.le, Bool.or_eq_true, Bool.and_eq_true, decide_eq_true_eq, beq_iff_eq]
  omega

theorem le_antisymm {p q : Position} (h₁ : p.le q) (h₂ : q.le p) : p = q := by
  cases p
  cases q
  simp only [Position.le, Bool.or_eq_true, Bool.and_eq_true, decide_eq_true_eq, beq_iff_eq,
    Position.mk.injEq] at *
  omega

end Position

/-- The text from one position to another. -/
structure Span where
  start : Position
  stop : Position
  deriving DecidableEq, Repr, Inhabited

namespace Span

/-- The span with the given lines and columns. -/
def of (startLine startColumn stopLine stopColumn : Int) : Span :=
  ⟨⟨startLine, startColumn⟩, ⟨stopLine, stopColumn⟩⟩

/-- Whether a position lies in the span, both of its ends included. -/
def contains (s : Span) (p : Position) : Bool := s.start.le p && p.le s.stop

/-- Whether another span lies in this one. -/
def covers (s t : Span) : Bool := s.contains t.start && s.contains t.stop

/-- Whether the span stays on one line. -/
def isSingleLine (s : Span) : Bool := s.start.line == s.stop.line

/-- What one line counts for in the size of a span. -/
def lineWeight : Int := (1 <<< 53 : Nat)

/-- The size of a span for comparison: on one line the number of columns; over several lines their
number, weighted to outrank columns, and the last column. -/
def size (s : Span) : Int :=
  if s.isSingleLine then s.stop.column - s.start.column
  else (s.stop.line - s.start.line) * lineWeight + s.stop.column

theorem contains_iff {s : Span} {p : Position} :
    s.contains p ↔ s.start.le p ∧ p.le s.stop := by
  simp [contains]

theorem covers_iff {s t : Span} : s.covers t ↔ s.contains t.start ∧ s.contains t.stop := by
  simp [covers]

end Span

/-- A span in the document at a path. It also serves as the identity of the declaration that stands
there. -/
structure Location where
  path : String
  span : Span
  deriving DecidableEq, Repr, Inhabited

end Vicinity
