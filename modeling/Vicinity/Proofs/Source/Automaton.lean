import Vicinity.Proofs.Source.Literals

/-!
# Scanning by an automaton

A scan jumps: it measures a literal or comment as soon as it comes to one, and goes on behind it. An
automaton tells the same without jumps. It takes one character after another, sees besides only the one
that comes next, and remembers how the character that it is at is read (`Reading`): as code, or within a
literal or comment of some kind.

The two go together because a reading tells how far it is to the next code (`Reading.left`): that is what
the scan has measured when it came to the literal, less what the automaton has read since.

## What is proved

* `Reading.left_next`: a character that is not code brings the automaton one character nearer to the code
  behind.
* `Reading.opaqueLength?_eq`: what begins at a character of code is measured up to the code behind it.
* `Reading.next_code_iff`: where the automaton stays in code.
-/

namespace Vicinity

open Text

/-! ### The automaton -/

/-- How a character is read. -/
inductive Reading where
  /-- As code. -/
  | code
  /-- In a comment up to the end of its line. -/
  | lineComment
  /-- In a comment up to a star and a slash. -/
  | blockComment
  /-- In a literal with escapes. -/
  | escaped (quote : Char)
  /-- In a literal without escapes. -/
  | raw (quote : Char)
  /-- In a template. -/
  | template (quote : Char)
  /-- In a hole of a template, with this many braces still to be closed. -/
  | hole (quote : Char) (depth : Nat)
  /-- In a literal with escapes in a hole of a template. -/
  | quotedInHole (quote : Char) (depth : Nat) (inner : Char)
  /-- As one that means nothing by itself, after which another reading goes on. -/
  | passing (behind : Reading)
  deriving DecidableEq, Repr

namespace Reading

/-- How the next character is read, told by a character and the one that comes next. -/
def next (lexicon : Lexicon) : Reading → Char → Option Char → Reading
  | .code, c, following =>
    if c = '/' ∧ following = some '/' then .lineComment
    else if c = '/' ∧ following = some '*' then .passing .blockComment
    else if c ∈ lexicon.escaped then .escaped c
    else if c ∈ lexicon.raw then .raw c
    else if lexicon.template = some c then .template c
    else .code
  | .lineComment, _, following => if following = some '\n' then .code else .lineComment
  | .blockComment, c, following =>
    if c = '*' ∧ following = some '/' then .passing .code else .blockComment
  | .escaped quote, c, _ =>
    if c = '\\' then .passing (.escaped quote) else if c = quote then .code else .escaped quote
  | .raw quote, c, _ => if c = quote then .code else .raw quote
  | .template quote, c, following =>
    if c = '\\' then .passing (.template quote)
    else if c = quote then .code
    else if c = '$' ∧ following = some '\x7b' then .passing (.hole quote 1)
    else .template quote
  | .hole quote depth, c, _ =>
    if c ∈ lexicon.escaped then .quotedInHole quote depth c
    else if c = '\x7b' then .hole quote (depth + 1)
    else if c = '\x7d' then if depth ≤ 1 then .template quote else .hole quote (depth - 1)
    else .hole quote depth
  | .quotedInHole quote depth inner, c, _ =>
    if c = '\\' then .passing (.quotedInHole quote depth inner)
    else if c = inner then .hole quote depth
    else .quotedInHole quote depth inner
  | .passing behind, _, _ => behind

/-- How the character after the first `n` ones is read. -/
def after (lexicon : Lexicon) : Reading → List Char → (n : Nat) → Reading
  | reading, c :: rest, n + 1 => after lexicon (reading.next lexicon c rest.head?) rest n
  | reading, _, _ => reading

@[simp] theorem after_zero (lexicon : Lexicon) (reading : Reading) (source : List Char) :
    reading.after lexicon source 0 = reading := by
  simp [after]

@[simp] theorem after_cons_succ (lexicon : Lexicon) (reading : Reading) (c : Char)
    (rest : List Char) (n : Nat) :
    reading.after lexicon (c :: rest) (n + 1) =
      (reading.next lexicon c rest.head?).after lexicon rest n := rfl

end Reading

/-- The character at an offset is code, if the source is code from another offset on: the automaton comes
to it in code, and it begins no literal and no comment. -/
structure Lexicon.CodeAt (lexicon : Lexicon) (content : List Char) (start i : Nat) (c : Char) :
    Prop where
  start_le : start ≤ i
  here : content[i]? = some c
  reading : Reading.code.after lexicon (content.drop start) (i - start) = .code
  no_quote : ¬lexicon.IsQuote c
  no_comment : c = '/' → content[i + 1]? ≠ some '/' ∧ content[i + 1]? ≠ some '*'

/-! ### How far it is to the next code -/

/-- The number of characters up to and with the first place of a text, or of all if it has none. -/
def searchLength (needle s : List Char) : Nat :=
  match find needle s with
  | some i => i + needle.length
  | none => s.length

theorem searchLength_cons (needle : List Char) (c : Char) (s : List Char) :
    searchLength needle (c :: s) =
      if needle.isPrefixOf (c :: s) then needle.length else searchLength needle s + 1 := by
  unfold searchLength
  by_cases hhere : needle.isPrefixOf (c :: s) = true
  · simp [find_cons, hhere]
  · rw [find_cons, if_neg hhere, if_neg hhere]
    cases find needle s with
    | none => rfl
    | some i => exact Nat.add_right_comm i 1 needle.length

namespace Lexicon

variable {lexicon : Lexicon} {quote : Char}

theorem escapedLength_add (quote : Char) (s : List Char) (n k : Nat) :
    escapedLength quote s (n + k) = escapedLength quote s n + k := by
  fun_induction escapedLength quote s n with
  | case1 n => rfl
  | case2 n =>
    rw [escapedLength]
    omega
  | case3 n c rest ih => rw [escapedLength, Nat.add_right_comm, ih]
  | case4 rest n hlast hescape =>
    rw [escapedLength, if_pos rfl, Nat.add_right_comm]
    · exact hlast
    · exact hescape
  | case5 c rest n hlast hescape hquote ih =>
    rw [escapedLength, if_neg hquote, Nat.add_right_comm, ih]
    · exact hlast
    · exact hescape

theorem holeLength_add (s : List Char) (skip depth n k : Nat) :
    holeLength lexicon s skip depth (n + k) = holeLength lexicon s skip depth n + k := by
  induction s generalizing skip depth n with
  | nil => rfl
  | cons c rest ih =>
    cases skip with
    | succ skip => rw [holeLength, holeLength, Nat.add_right_comm, ih]
    | zero =>
      simp only [holeLength, Nat.add_right_comm n k 1, ih]
      split_ifs <;> rfl

theorem templateLength_add (s : List Char) (skip n k : Nat) :
    templateLength lexicon quote s skip (n + k) = templateLength lexicon quote s skip n + k := by
  induction s generalizing skip n with
  | nil => rfl
  | cons c rest ih =>
    cases skip with
    | succ skip => rw [templateLength, templateLength, Nat.add_right_comm, ih]
    | zero =>
      simp only [templateLength, Nat.add_right_comm n k 1, ih]
      split_ifs
      · rfl
      · rfl
      · split <;> rfl

end Lexicon

namespace Reading

open Lexicon

variable {lexicon : Lexicon}

/-- The number of characters of the rest of a source before the next one of code. -/
def left (lexicon : Lexicon) : Reading → List Char → Nat
  | .code, _ => 0
  | .lineComment, [] => 0
  | .lineComment, _ :: rest => (rest.takeWhile (· != '\n')).length + 1
  | .blockComment, s => searchLength ['*', '/'] s
  | .escaped quote, s => escapedLength quote s 0
  | .raw quote, s => searchLength [quote] s
  | .template quote, s => templateLength lexicon quote s 0 0
  | .hole quote depth, s => templateLength lexicon quote s (holeLength lexicon s 0 depth 0) 0
  | .quotedInHole quote depth inner, s =>
    templateLength lexicon quote s (holeLength lexicon s (escapedLength inner s 0) depth 0) 0
  | .passing _, [] => 0
  | .passing behind, _ :: rest => behind.left lexicon rest + 1

/-- Passing over characters in a hole. -/
theorem holeLength_succ (c : Char) (rest : List Char) (skip depth : Nat) :
    holeLength lexicon (c :: rest) (skip + 1) depth 0 = holeLength lexicon rest skip depth 0 + 1 := by
  rw [holeLength, holeLength_add]

theorem templateLength_succ (quote c : Char) (rest : List Char) (skip : Nat) :
    templateLength lexicon quote (c :: rest) (skip + 1) 0 =
      templateLength lexicon quote rest skip 0 + 1 := by
  rw [templateLength, templateLength_add]

/-- A literal with escapes, by its first character. -/
theorem escapedLength_first (quote c : Char) (rest : List Char) :
    escapedLength quote (c :: rest) 0 =
      if c = '\\' then (match rest with
        | [] => 0
        | _ :: more => escapedLength quote more 0 + 1) + 1
      else if c = quote then 1 else escapedLength quote rest 0 + 1 := by
  by_cases hescape : c = '\\'
  · subst hescape
    cases rest with
    | nil => rfl
    | cons d more => rw [escapedLength, escapedLength_add, if_pos rfl]
  · rw [escapedLength_cons hescape, if_neg hescape, escapedLength_add]

/-- **A character brings the automaton nearer** to the code behind a literal or comment. -/
theorem left_next {reading : Reading} (h : reading ≠ .code) (c : Char) (rest : List Char) :
    reading.left lexicon (c :: rest) =
      (reading.next lexicon c rest.head?).left lexicon rest + 1 := by
  cases reading with
  | code => exact absurd rfl h
  | lineComment =>
    cases rest with
    | nil => rfl
    | cons d rest =>
      by_cases hd : d = '\n'
      · simp [left, next, hd]
      · simp [left, next, hd]
  | blockComment =>
    by_cases hend : c = '*' ∧ rest.head? = some '/'
    · obtain ⟨rfl, hslash⟩ := hend
      obtain ⟨more, rfl⟩ := List.head?_eq_some_iff.mp hslash
      simp [left, next, searchLength_cons]
    · have hnot : ¬['*', '/'].isPrefixOf (c :: rest) = true := by
        intro hbegins
        rw [List.isPrefixOf_iff_prefix, List.cons_prefix_cons] at hbegins
        obtain ⟨rfl, more, rfl⟩ := hbegins
        exact hend ⟨rfl, rfl⟩
      rw [next, if_neg hend, left, searchLength_cons, if_neg hnot, left]
  | escaped quote =>
    rw [left, escapedLength_first, next]
    split_ifs with hescape hquote
    · cases rest <;> rfl
    · rfl
    · rfl
  | raw quote =>
    rw [left, searchLength_cons, next]
    by_cases hquote : c = quote
    · simp [hquote, left]
    · simp [hquote, left, Ne.symm hquote]
  | template quote =>
    rw [left, next]
    split_ifs with hescape hquote hhole
    · subst hescape
      cases rest with
      | nil => rfl
      | cons d rest =>
        rw [templateLength_escape, Nat.add_comm 0 2, Nat.add_comm 2 0, templateLength_add]
        rfl
    · subst hquote
      rw [templateLength_quote hescape]
      rfl
    · obtain ⟨rfl, hbrace⟩ := hhole
      obtain ⟨more, rfl⟩ := List.head?_eq_some_iff.mp hbrace
      rw [templateLength_hole (Ne.symm hquote), templateLength_add, Nat.add_comm 1,
        templateLength_succ]
      rfl
    · rw [templateLength_plain hquote hescape hhole, templateLength_add]
      rfl
  | hole quote depth =>
    rw [left, holeLength, next]
    split_ifs
    · rw [holeLength_add, templateLength_succ, left]
    · rw [holeLength_add, templateLength_succ, left]
    · rw [Nat.zero_add, templateLength_succ, left]
    · rw [holeLength_add, templateLength_succ, left]
    · rw [holeLength_add, templateLength_succ, left]
  | quotedInHole quote depth inner =>
    rw [left, escapedLength_first, next]
    split_ifs with hescape hinner
    · rw [holeLength_succ, templateLength_succ]
      cases rest with
      | nil => rfl
      | cons d rest =>
        dsimp only
        rw [holeLength_succ, templateLength_succ, left, left]
    · rw [holeLength_succ, templateLength_succ, left]
    · rw [holeLength_succ, templateLength_succ, left]
  | passing behind => rfl

/-- What begins at a character of code is measured up to the next code. -/
theorem opaqueLength?_eq (c : Char) (rest : List Char) :
    lexicon.opaqueLength? c rest =
      let reading := Reading.code.next lexicon c rest.head?
      if reading = .code then none else some (reading.left lexicon rest + 1) := by
  by_cases hline : c = '/' ∧ rest.head? = some '/'
  · obtain ⟨rfl, hslash⟩ := hline
    obtain ⟨comment, rfl⟩ := List.head?_eq_some_iff.mp hslash
    simp [opaqueLength?, next, left]
    omega
  by_cases hblock : c = '/' ∧ rest.head? = some '*'
  · obtain ⟨rfl, hstar⟩ := hblock
    obtain ⟨comment, rfl⟩ := List.head?_eq_some_iff.mp hstar
    have hlength : lexicon.opaqueLength? '/' ('*' :: comment) =
        some (searchLength ['*', '/'] comment + 2) := by
      simp only [opaqueLength?, searchLength]
      cases find ['*', '/'] comment with
      | none => exact congrArg some (Nat.add_comm 2 comment.length)
      | some i => rfl
    simp [hlength, next, left]
  have hquotes : lexicon.opaqueLength? c rest =
      if c ∈ lexicon.escaped then some (escapedLength c rest 0 + 1)
      else if c ∈ lexicon.raw then some (searchLength [c] rest + 1)
      else if lexicon.template = some c then some (templateLength lexicon c rest 0 0 + 1)
      else none := by
    unfold opaqueLength? searchLength
    split
    · exact absurd ⟨rfl, rfl⟩ hline
    · exact absurd ⟨rfl, rfl⟩ hblock
    · simp only [Nat.add_comm 1]
      cases find [c] rest <;> rfl
  rw [hquotes, next, if_neg hline, if_neg hblock]
  split_ifs <;> simp_all [left]

/-- The automaton stays in code at a character that begins no literal and no comment. -/
theorem next_code_iff {c : Char} {following : Option Char} :
    Reading.code.next lexicon c following = .code ↔
      ¬lexicon.IsQuote c ∧ (c = '/' → following ≠ some '/' ∧ following ≠ some '*') := by
  rw [next, IsQuote]
  split_ifs <;> simp_all

end Reading

end Vicinity
