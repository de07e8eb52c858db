import Vicinity.Text.Alphanumeric
import Vicinity.Text.Blank

/-!
# Patterns over text

A small language of patterns and the search for a match. `Pattern.runWith` tries the ways in which a
pattern can match in order of preference (a run of characters prefers to be long, of two alternatives
the first is preferred) and hands each to a continuation until one is accepted, so that the first
match is the preferred one of those after which the rest of the pattern still matches.
-/

namespace Vicinity.Text

/-- A place between two characters of a text, with what has been captured on the way to it. -/
structure Cursor where
  /-- The character before the place, if any. -/
  before : Option Char
  /-- The characters after the place. -/
  rest : List Char
  /-- The number of characters before the place. -/
  offset : Nat
  /-- The captured texts, the latest first. -/
  captured : List (List Char) := []

namespace Cursor

/-- The beginning of a text. -/
def start (s : List Char) : Cursor := ⟨none, s, 0, []⟩

/-- The place after `n` characters of a text; its end if there are fewer. -/
def ofOffset (s : List Char) : Nat → Cursor
  | 0 => start s
  | n + 1 => match s.drop n with
    | before :: rest => ⟨some before, rest, n + 1, []⟩
    | [] => ⟨s.getLast?, [], s.length, []⟩

/-- Past the character `c`, after which `rest` follows. -/
def step (cur : Cursor) (c : Char) (rest : List Char) : Cursor :=
  { cur with before := some c, rest, offset := cur.offset + 1 }

/-- Whether a line begins here. -/
def atLineStart (cur : Cursor) : Bool :=
  match cur.before with
  | none => true
  | some c => c == '\n'

/-- Whether exactly one of the two neighbours is a word character. -/
def atWordEdge (cur : Cursor) : Bool :=
  let left := match cur.before with | some c => isWordChar c | none => false
  let right := match cur.rest with | c :: _ => isWordChar c | [] => false
  left != right

end Cursor

/-- A pattern over text. -/
inductive Pattern where
  /-- Nothing at all. -/
  | nothing
  /-- One character of a class. -/
  | one (accepts : Char → Bool)
  /-- At least `least` characters of a class, as many as possible. -/
  | run (least : Nat) (accepts : Char → Bool)
  /-- The beginning of a line. -/
  | lineStart
  /-- A place with a word character on exactly one side. -/
  | wordEdge
  /-- A place that does not come right after a character of the class. -/
  | notAfter (accepts : Char → Bool)
  /-- One pattern and then another. -/
  | both (first second : Pattern)
  /-- One pattern or, failing that, another. -/
  | either (first second : Pattern)
  /-- A pattern any number of times, as often as possible. -/
  | many (body : Pattern)
  /-- A pattern whose text is kept. -/
  | capture (body : Pattern)

namespace Pattern

instance : Append Pattern := ⟨.both⟩

/-- A fixed text. -/
def text (s : String) : Pattern :=
  s.toList.foldr (fun c p => .both (.one (· == c)) p) .nothing

/-- One of several fixed texts, the first that fits. -/
def anyOf : List String → Pattern
  | [] => .one fun _ => false
  | [s] => text s
  | s :: more => .either (text s) (anyOf more)

/-- A pattern or nothing. -/
def opt (p : Pattern) : Pattern := .either p .nothing

/-- Blanks, possibly none. -/
def blanks : Pattern := .run 0 isBlank

/-- At least one blank. -/
def gap : Pattern := .run 1 isBlank

/-- A run of word characters. -/
def word : Pattern := .run 1 isWordChar

/-- The places reached by passing 0, 1, 2, … characters of a class, the farthest first, in front of
`acc`. -/
def reachable (accepts : Char → Bool) (cur : Cursor) (acc : List Cursor) : List Cursor :=
  go cur.rest cur acc
where
  go : List Char → Cursor → List Cursor → List Cursor
    | c :: rest, cur, acc =>
      if accepts c then go rest (cur.step c rest) (cur :: acc) else cur :: acc
    | [], cur, acc => cur :: acc

/-- The answer at the first of several places that has one. -/
def firstOf {α : Type _} (k : Cursor → Option α) : List Cursor → Option α
  | [] => none
  | cur :: more => match k cur with
    | some a => some a
    | none => firstOf k more

/-- Repeats a matcher at most `limit` times, as often as possible, and then goes on with `k`. -/
def repeated {α : Type _} (body : Cursor → (Cursor → Option α) → Option α) :
    Nat → Cursor → (Cursor → Option α) → Option α
  | 0, cur, k => k cur
  | limit + 1, cur, k =>
    match body cur fun next => repeated body limit next k with
    | some a => some a
    | none => k cur

/-- The first answer that the continuation gives to a place where the pattern, matched from the
cursor, can end. -/
def runWith {α : Type _} : Pattern → Cursor → (Cursor → Option α) → Option α
  | .nothing, cur, k => k cur
  | .one accepts, cur, k => match cur.rest with
    | c :: rest => if accepts c then k (cur.step c rest) else none
    | [] => none
  | .run least accepts, cur, k =>
    firstOf (fun next => if next.offset < cur.offset + least then none else k next)
      (reachable accepts cur [])
  | .lineStart, cur, k => if cur.atLineStart then k cur else none
  | .wordEdge, cur, k => if cur.atWordEdge then k cur else none
  | .notAfter accepts, cur, k => match cur.before with
    | some c => if accepts c then none else k cur
    | none => k cur
  | .both p q, cur, k => p.runWith cur fun next => q.runWith next k
  | .either p q, cur, k => match p.runWith cur k with
    | some a => some a
    | none => q.runWith cur k
  | .many p, cur, k =>
    match p.runWith cur fun next => repeated (p.runWith (α := α)) next.rest.length next k with
    | some a => some a
    | none => k cur
  | .capture p, cur, k => p.runWith cur fun next =>
      k { next with captured := cur.rest.take (next.offset - cur.offset) :: next.captured }

/-- Where the pattern, matched from the cursor, ends. -/
def matchAt (p : Pattern) (cur : Cursor) : Option Cursor := p.runWith cur some

/-- Whether the pattern matches at the beginning of a text. -/
def matchesStart (p : Pattern) (s : List Char) : Bool := (p.matchAt (.start s)).isSome

/-- Whether the pattern matches the whole of a text. -/
def matchesAll (p : Pattern) (s : List Char) : Bool :=
  (p.runWith (.start s) fun cur => if cur.rest.isEmpty then some () else none).isSome

/-- A match: where it starts and the place at which it ends. -/
structure Match where
  start : Nat
  stop : Cursor

/-- The captured texts of a match, in order. -/
def Match.captured (m : Match) : List (List Char) := m.stop.captured.reverse

/-- The first match at the cursor or later. -/
def search (p : Pattern) (cur : Cursor) : Option Match :=
  go cur.rest cur
where
  go : List Char → Cursor → Option Match
    | c :: rest, cur => match p.matchAt cur with
      | some stop => some ⟨cur.offset, stop⟩
      | none => go rest (cur.step c rest)
    | [], cur => (p.matchAt cur).map (⟨cur.offset, ·⟩)

/-- The matches in a text from left to right, each beginning where the one before it ended or
later. -/
def findAll (p : Pattern) (s : List Char) : List Match :=
  go s (.start s) 0 []
where
  go : List Char → Cursor → Nat → List Match → List Match
    | [], cur, _, acc => match p.matchAt cur with
      | some stop => (⟨cur.offset, stop⟩ :: acc).reverse
      | none => acc.reverse
    | c :: rest, cur, resume, acc =>
      if cur.offset < resume then go rest (cur.step c rest) resume acc
      else match p.matchAt cur with
        | some stop => go rest (cur.step c rest) stop.offset (⟨cur.offset, stop⟩ :: acc)
        | none => go rest (cur.step c rest) resume acc

end Pattern

end Vicinity.Text
