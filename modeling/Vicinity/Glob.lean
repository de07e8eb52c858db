/-!
# Globs

Shell-style patterns over whole texts: a star stands for any text (slashes and line feeds included), a
question mark for any character, and brackets for a character of a set, written as characters and
ranges and negated by a leading exclamation mark. Nothing can be quoted. A range whose ends are the
wrong way round is empty, and a bracket that nothing closes stands for itself.
-/

namespace Vicinity

/-- A piece of a glob. -/
inductive GlobPiece where
  /-- Any text. -/
  | star
  /-- A character that lies in one of the closed ranges, or in none of them if negated. -/
  | oneOf (negated : Bool) (ranges : List (Char × Char))
  /-- A character that stands for itself. -/
  | exactly (c : Char)
  deriving Repr, DecidableEq

/-- A glob is the sequence of its pieces. -/
abbrev Glob := List GlobPiece

namespace Glob

/-- The text between a bracket's opening and its closing, given what follows the opening. A closing
bracket at the very beginning belongs to the set. -/
def setBody? (s : List Char) : Option (List Char) :=
  let lead := if s.head? = some '!' then 1 else 0
  let lead := if (s.drop lead).head? = some ']' then lead + 1 else lead
  let inner := (s.drop lead).takeWhile (· != ']')
  if lead + inner.length < s.length then some (s.take (lead + inner.length)) else none

/-- Cuts a set at the hyphens that make ranges: a hyphen at index `least` or later, and after it one
at index 2 or later of what remains. A hyphen at the very end makes no range. -/
def cutRanges (least : Nat) (s : List Char) : List (List Char) :=
  match (s.drop least).findIdx? (· == '-') with
  | none => [s]
  | some i =>
    let after := s.drop (least + i + 1)
    if after.isEmpty then [s]
    else s.take (least + i) :: cutRanges 2 after
termination_by s.length
decreasing_by
  rename_i h
  simp only [List.isEmpty_iff, after] at h
  have := List.length_pos_iff.2 h
  simp only [List.length_drop] at this ⊢
  omega

/-- Joins two neighbouring pieces whose range would be empty, dropping its two ends. -/
def dropEmptyRanges (pieces : List (List Char)) : List (List Char) :=
  pieces.foldr (fun piece later =>
    match later with
    | next :: more =>
      if (next.headD 'a').toNat < (piece.getLastD 'a').toNat then
        (piece.dropLast ++ next.tail) :: more
      else piece :: later
    | [] => [piece]) []

/-- The ranges of a set cut at its hyphens: each character by itself, but for the two around a cut,
which are the ends of a range. -/
def rangesOf : List (List Char) → List (Char × Char)
  | [] => []
  | piece :: more => go piece more
where
  go (piece : List Char) : List (List Char) → List (Char × Char)
    | [] => piece.map fun c => (c, c)
    | next :: more =>
      piece.dropLast.map (fun c => (c, c)) ++
        (piece.getLastD 'a', next.headD 'a') :: go next.tail more

/-- The piece that a bracketed set stands for. -/
def ofSet (body : List Char) : GlobPiece :=
  match body with
  | '!' :: rest => .oneOf true (rangesOf (dropEmptyRanges (cutRanges 1 rest)))
  | _ => .oneOf false (rangesOf (dropEmptyRanges (cutRanges 1 body)))

/-- The glob that a text writes. -/
def ofText (s : String) : Glob := go s.toList 0
where
  /-- Reads on after passing `skip` characters. -/
  go : List Char → Nat → Glob
    | [], _ => []
    | _ :: s, skip + 1 => go s skip
    | '*' :: s, 0 => .star :: go s 0
    | '?' :: s, 0 => .oneOf true [] :: go s 0
    | '[' :: s, 0 => match setBody? s with
      | some body => ofSet body :: go s (body.length + 1)
      | none => .exactly '[' :: go s 0
    | c :: s, 0 => .exactly c :: go s 0

/-- Whether `p` holds of the text or of what is left of it after some characters. -/
def anySuffix (p : List Char → Bool) : List Char → Bool
  | [] => p []
  | c :: s => p (c :: s) || anySuffix p s

/-- Whether the glob matches the whole of a text. -/
def matchesAll : Glob → List Char → Bool
  | [], s => s.isEmpty
  | .star :: .star :: g, s => matchesAll (.star :: g) s
  | .star :: g, s => anySuffix (matchesAll g) s
  | .exactly c :: g, s => match s with
    | d :: s => c == d && matchesAll g s
    | [] => false
  | .oneOf negated ranges :: g, s => match s with
    | d :: s => (ranges.any fun r => r.1 ≤ d && d ≤ r.2) != negated && matchesAll g s
    | [] => false

end Glob

end Vicinity
