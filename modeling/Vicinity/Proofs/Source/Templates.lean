import Vicinity.Proofs.Source.Closings

/-!
# Templates in templates

A hole of a template holds code, and so may hold comments, literals and templates with holes of their own,
to any depth. `Nests` is this grammar. A scan reads a hole more plainly: in it quotes and braces are all that
counts, and the marks of comments and of templates are characters like any other. So it can come out of a
template too early, or too late.

## What is proved

* `Nests.holeBody`, `Nests.templateBody`, `Nests.balanced`: if inside of holes the comments and the texts of
  templates are free of quotes and braces, both ways of reading agree.
* `closing_brace_of_block`: which blocks a scan closes at their own brace.
* `block_closed_in_template`: a block of the grammar that is closed inside of its template, and one that is
  not closed at all.
-/

namespace Vicinity

open Lexicon

/-! ### The grammar -/

/-- What a part of a script is. -/
inductive ScriptPart where
  /-- Code. -/
  | code
  /-- What stands between the quotes of a template. -/
  | template

/-- Parts of a script, inside or outside of holes, in which literals and comments are closed and braces
balance. A hole holds code, which may hold templates again. Inside of a hole, the comments and the texts of
templates are made of `allowed` characters. -/
inductive Nests (allowed : Char → Prop) : ScriptPart → (inHole : Bool) → List Char → Prop where
  /-- Nothing. -/
  | nil {part : ScriptPart} {inHole : Bool} : Nests allowed part inHole []
  /-- A character of code that begins no literal and no comment and is no brace. -/
  | code {inHole : Bool} {c : Char} {s : List Char} (hquote : ¬script.IsQuote c) (hopen : c ≠ '\x7b')
      (hclose : c ≠ '\x7d') (hcomment : c = '/' → ∀ d ∈ s.head?, d ≠ '/' ∧ d ≠ '*')
      (h : Nests allowed .code inHole s) : Nests allowed .code inHole (c :: s)
  /-- A block. -/
  | block {inHole : Bool} {t s : List Char} (ht : Nests allowed .code inHole t)
      (h : Nests allowed .code inHole s) : Nests allowed .code inHole ('\x7b' :: (t ++ '\x7d' :: s))
  /-- A comment with the end of its line. -/
  | line {inHole : Bool} {t s : List Char} (hline : '\n' ∉ t) (ht : inHole = true → ∀ c ∈ t, allowed c)
      (h : Nests allowed .code inHole s) : Nests allowed .code inHole ('/' :: '/' :: (t ++ '\n' :: s))
  /-- A comment that ends where it first says so. -/
  | comment {inHole : Bool} {t s : List Char} (hblock : ¬['*', '/'] <:+: t)
      (ht : inHole = true → ∀ c ∈ t, allowed c) (h : Nests allowed .code inHole s) :
      Nests allowed .code inHole ('/' :: '*' :: (t ++ '*' :: '/' :: s))
  /-- A literal with escapes. -/
  | quoted {inHole : Bool} {quote : Char} {t s : List Char} (hquote : quote ∈ script.escaped)
      (ht : QuotedBody quote t) (h : Nests allowed .code inHole s) :
      Nests allowed .code inHole (quote :: (t ++ quote :: s))
  /-- A template. -/
  | template {inHole : Bool} {t s : List Char} (ht : Nests allowed .template inHole t)
      (h : Nests allowed .code inHole s) : Nests allowed .code inHole ('`' :: (t ++ '`' :: s))
  /-- A character of a template's text. -/
  | text {inHole : Bool} {c : Char} {s : List Char} (hquote : c ≠ '`') (hescape : c ≠ '\\')
      (hhole : ¬(c = '$' ∧ s.head? = some '\x7b')) (hc : inHole = true → allowed c)
      (h : Nests allowed .template inHole s) : Nests allowed .template inHole (c :: s)
  /-- A character after a backslash. -/
  | escape {inHole : Bool} {c : Char} {s : List Char} (hc : inHole = true → allowed c)
      (h : Nests allowed .template inHole s) : Nests allowed .template inHole ('\\' :: c :: s)
  /-- A hole. -/
  | hole {inHole : Bool} {t s : List Char} (ht : Nests allowed .code true t)
      (h : Nests allowed .template inHole s) :
      Nests allowed .template inHole ('$' :: '\x7b' :: (t ++ '\x7d' :: s))

/-- A character that means nothing in a hole as a scan reads it. -/
def IsUnmarked (c : Char) : Prop := c ∉ script.escaped ∧ c ≠ '\x7b' ∧ c ≠ '\x7d'

instance : DecidablePred IsUnmarked := fun c =>
  inferInstanceAs (Decidable (c ∉ script.escaped ∧ c ≠ '\x7b' ∧ c ≠ '\x7d'))

/-! ### Holes as a scan reads them -/

theorem Lexicon.HoleBody.append {lexicon : Lexicon} {s t : List Char} (hs : HoleBody lexicon s)
    (ht : HoleBody lexicon t) : HoleBody lexicon (s ++ t) := by
  induction hs with
  | nil => exact ht
  | plain hquote hopen hclose _ ih => exact .plain hquote hopen hclose ih
  | @quoted quote u s hquote hu _ ih =>
    rw [List.cons_append, List.append_assoc, List.cons_append]
    exact .quoted hquote hu ih
  | @braced u s hu _ _ ih =>
    rw [List.cons_append, List.append_assoc, List.cons_append]
    exact .braced hu ih

theorem holeBody_cons {c : Char} {s : List Char} (hc : IsUnmarked c) (h : HoleBody script s) :
    HoleBody script (c :: s) := .plain hc.1 hc.2.1 hc.2.2 h

theorem holeBody_of_unmarked {s : List Char} (h : ∀ c ∈ s, IsUnmarked c) : HoleBody script s := by
  induction s with
  | nil => exact .nil
  | cons c s ih =>
    rw [List.forall_mem_cons] at h
    exact holeBody_cons h.1 (ih h.2)

/-- What stands in a hole is balanced also for a scan, if comments and texts leave quotes and braces
alone. -/
theorem Nests.holeBody {part : ScriptPart} {s : List Char} (h : Nests IsUnmarked part true s) :
    HoleBody script s := by
  generalize hplace : true = inHole at h
  induction h with
  | nil => exact .nil
  | code hquote hopen hclose _ _ ih =>
    exact .plain (fun hmem => hquote (.inl hmem)) hopen hclose (ih hplace)
  | block _ _ iht ih => exact .braced (iht hplace) (ih hplace)
  | line _ ht _ ih =>
    have hend := holeBody_cons (by decide : IsUnmarked '\n') (ih hplace)
    exact holeBody_cons (by decide) (holeBody_cons (by decide)
      ((holeBody_of_unmarked (ht hplace.symm)).append hend))
  | comment _ ht _ ih =>
    have hend := holeBody_cons (by decide : IsUnmarked '*')
      (holeBody_cons (by decide : IsUnmarked '/') (ih hplace))
    exact holeBody_cons (by decide) (holeBody_cons (by decide)
      ((holeBody_of_unmarked (ht hplace.symm)).append hend))
  | quoted hquote ht _ ih => exact .quoted hquote ht (ih hplace)
  | template _ _ iht ih =>
    have hend := holeBody_cons (by decide : IsUnmarked '`') (ih hplace)
    exact holeBody_cons (by decide) ((iht hplace).append hend)
  | text _ _ _ hc _ ih => exact holeBody_cons (hc hplace.symm) (ih hplace)
  | escape hc _ ih => exact holeBody_cons (by decide) (holeBody_cons (hc hplace.symm) (ih hplace))
  | hole _ _ iht ih => exact holeBody_cons (by decide) (.braced (iht rfl) (ih hplace))

/-- So is a template outside of holes. -/
theorem Nests.templateBody {s : List Char} (h : Nests IsUnmarked .template false s) :
    TemplateBody script '`' s := by
  generalize hpart : ScriptPart.template = part at h
  generalize hplace : false = inHole at h
  induction h with
  | nil => exact .nil
  | text hquote hescape hhole _ _ ih => exact .plain hquote hescape hhole (ih hpart hplace)
  | escape _ _ ih => exact .escape (ih hpart hplace)
  | hole ht _ _ ih => exact .hole ht.holeBody (ih hpart hplace)
  | code | block | line | comment | quoted | template => cases hpart

/-! ### Blocks -/

namespace Lexicon.Balanced

variable {lexicon : Lexicon} {s t : List Char}

theorem nil : lexicon.Balanced [] := ⟨[], .nil, .nil⟩

/-- A character of code before balanced code. -/
theorem code {c : Char} (hquote : ¬lexicon.IsQuote c) (hopen : c ≠ '\x7b') (hclose : c ≠ '\x7d')
    (hcomment : c = '/' → ∀ d ∈ s.head?, d ≠ '/' ∧ d ≠ '*') (h : lexicon.Balanced s) :
    lexicon.Balanced (c :: s) := by
  obtain ⟨code, hlexed, hbraced⟩ := h
  refine ⟨_, .code hquote (fun hc d hd => ?_) hlexed, .plain hopen hclose hbraced⟩
  cases s with
  | nil =>
    obtain rfl : '\x7d' = d := by simpa using hd
    decide
  | cons e s => exact hcomment hc d hd

/-- A closed literal or comment before balanced code. -/
theorem closed (ht : lexicon.Closed (s ++ ['\x7d']) t) (h : lexicon.Balanced s) :
    lexicon.Balanced (t ++ s) := by
  obtain ⟨code, hlexed, hbraced⟩ := h
  exact ⟨code, .closed ht hlexed, hbraced⟩

/-- A block before balanced code. -/
theorem block (hlexicon : lexicon.Tells) (ht : lexicon.Balanced t) (h : lexicon.Balanced s) :
    lexicon.Balanced ('\x7b' :: (t ++ '\x7d' :: s)) := by
  obtain ⟨inside, hinside, hbraced⟩ := ht
  obtain ⟨behind, hbehind, hbraced'⟩ := h
  obtain ⟨inside', hinside', hchars⟩ := hinside.of_head? ('\x7d' :: s ++ ['\x7d']) rfl
  have hclose := Lexed.code hlexicon.closing (by simp) hbehind
  refine ⟨_, .code hlexicon.opening (by simp) (hinside'.append hclose), ?_⟩
  rw [List.map_cons, List.map_append, List.map_cons, hchars]
  exact .block hbraced hbraced'

end Lexicon.Balanced

/-- Code outside of holes is balanced also for a scan. -/
theorem Nests.balanced {s : List Char} (h : Nests IsUnmarked .code false s) : script.Balanced s := by
  generalize hpart : ScriptPart.code = part at h
  generalize hplace : false = inHole at h
  induction h with
  | nil => exact .nil
  | code hquote hopen hclose hcomment _ ih =>
    exact .code hquote hopen hclose hcomment (ih hpart hplace)
  | block _ _ iht ih => exact .block tells_script (iht hpart hplace) (ih hpart hplace)
  | @line _ t s hline _ _ ih =>
    have hend := Balanced.code (by decide : ¬script.IsQuote '\n') (by decide) (by decide) (by simp)
      (ih hpart hplace)
    exact .closed (.line hline (by simp)) hend
  | @comment _ t s hblock _ _ ih =>
    simpa using Balanced.closed (.block hblock) (ih hpart hplace)
  | @quoted _ quote t s hquote ht _ ih =>
    simpa using Balanced.closed (.escaped hquote ht) (ih hpart hplace)
  | @template _ t s ht _ _ ih =>
    subst hplace
    simpa using Balanced.closed (.template rfl ht.templateBody) (ih hpart rfl)
  | text | escape | hole => cases hpart

/-- **Which brace closes a block.** A scan closes a block at its own brace exactly if what is in the block
is closed and balanced also when quotes and braces are all that counts in holes. So it does if templates
nest to any depth, but the comments and the texts of templates in holes are free of quotes and braces. -/
theorem closing_brace_of_block (body after : List Char) (offset : Nat) :
    (matchingBrace .script ('\x7b' :: (body ++ '\x7d' :: after)) offset =
        some (offset + body.length + 1) ↔ script.Balanced body) ∧
      (Nests IsUnmarked .code false body →
        matchingBrace .script ('\x7b' :: (body ++ '\x7d' :: after)) offset =
          some (offset + body.length + 1)) := by
  have hown : matchingBrace .script ('\x7b' :: (body ++ '\x7d' :: after)) offset =
      some (offset + body.length + 1) ↔ script.Balanced body := matchingBrace_append_iff tells_script
  exact ⟨hown, fun h => hown.mpr h.balanced⟩

/-- A template with a hole that holds another one with a hole, and a comment. -/
def templateInHole : List Char :=
  ['`', '$', '\x7b', '`', '$', '\x7b', 'a', '\x7d', '`', '/', '*', 'b', '*', '/', '\x7d', '`']

theorem closing_brace_templateInHole :
    Nests IsUnmarked .code false templateInHole ∧
      matchingBrace .script ('\x7b' :: (templateInHole ++ '\x7d' :: ['\x7d'])) 3 = some 20 := by
  have hname : Nests IsUnmarked .code true ['a'] :=
    .code (by decide) (by decide) (by decide) (by decide) .nil
  have hcomment : Nests IsUnmarked .code true ['/', '*', 'b', '*', '/'] := by
    refine .comment (t := ['b']) (fun h => absurd h.length_le (by decide)) (fun _ c hc => ?_) .nil
    rw [List.mem_singleton.mp hc]
    decide
  have hinner : Nests IsUnmarked .code true
      ['`', '$', '\x7b', 'a', '\x7d', '`', '/', '*', 'b', '*', '/'] :=
    .template (t := ['$', '\x7b', 'a', '\x7d']) (.hole (t := ['a']) hname .nil) hcomment
  have hnests : Nests IsUnmarked .code false templateInHole :=
    .template (t := templateInHole.tail.dropLast)
      (.hole (t := ['`', '$', '\x7b', 'a', '\x7d', '`', '/', '*', 'b', '*', '/']) hinner .nil) .nil
  exact ⟨hnests, (closing_brace_of_block templateInHole ['\x7d'] 3).2 hnests⟩

/-- A template whose hole holds a template with a closing brace in its text. -/
def braceInTemplate : List Char := ['`', '$', '\x7b', '`', '\x7d', '`', '\x7d', '`']

/-- A template whose hole holds a comment with a quote in it. -/
def quoteInComment : List Char := ['`', '$', '\x7b', '/', '*', '\'', '*', '/', '\x7d', '`']

/-- **Nested templates and comments in holes are not recognized**: one block is closed at the brace that
ends the hole, the other one is not closed at all. -/
theorem block_closed_in_template :
    (Nests (fun _ => True) .code false braceInTemplate ∧
      matchingBrace .script ('\x7b' :: (braceInTemplate ++ ['\x7d'])) 0 = some 7 ∧
      7 ≠ 0 + braceInTemplate.length + 1) ∧
    Nests (fun _ => True) .code false quoteInComment ∧
      matchingBrace .script ('\x7b' :: (quoteInComment ++ ['\x7d'])) 0 = none := by
  have hbrace : Nests (fun _ => True) .code true ['`', '\x7d', '`'] :=
    .template (t := ['\x7d'])
      (.text (by decide) (by decide) (by decide) (fun _ => trivial) .nil) .nil
  have hquote : Nests (fun _ => True) .code true ['/', '*', '\'', '*', '/'] :=
    .comment (t := ['\'']) (by decide) (fun _ _ _ => trivial) .nil
  refine ⟨⟨?_, by decide +kernel, by decide⟩, ?_, by decide +kernel⟩
  · exact .template (t := braceInTemplate.tail.dropLast)
      (.hole (t := ['`', '\x7d', '`']) hbrace .nil) .nil
  · exact .template (t := quoteInComment.tail.dropLast)
      (.hole (t := ['/', '*', '\'', '*', '/']) hquote .nil) .nil

end Vicinity
