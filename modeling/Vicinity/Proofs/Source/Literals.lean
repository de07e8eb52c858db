import Vicinity.Source.Scan
import Mathlib.Data.List.Basic

/-!
# Closed literals and comments

What may stand between the quotes of a literal, in a hole of a template and in a comment is said by a
grammar of its own, and a literal or comment that follows it is measured to its end.

## What is proved

* `escapedLength_append`, `holeLength_append`, `templateLength_append`: what the parts of a literal
  measure.
* `opaqueLength?_of_closed`: a closed literal or comment is measured to its end.
-/

namespace Vicinity

open Text

namespace Lexicon

/-! ### The grammar -/

/-- What may stand in a literal with escapes: no quote and no backslash, except where a backslash comes
before them. -/
inductive QuotedBody (quote : Char) : List Char → Prop where
  | nil : QuotedBody quote []
  | plain {c : Char} {s : List Char} (hquote : c ≠ quote) (hescape : c ≠ '\\')
      (h : QuotedBody quote s) : QuotedBody quote (c :: s)
  | escape {c : Char} {s : List Char} (h : QuotedBody quote s) : QuotedBody quote ('\\' :: c :: s)

/-- What may stand in a hole of a template: literals with escapes, and braces that balance. -/
inductive HoleBody (lexicon : Lexicon) : List Char → Prop where
  | nil : HoleBody lexicon []
  | plain {c : Char} {s : List Char} (hquote : c ∉ lexicon.escaped) (hopen : c ≠ '\x7b')
      (hclose : c ≠ '\x7d') (h : HoleBody lexicon s) : HoleBody lexicon (c :: s)
  | quoted {quote : Char} {t s : List Char} (hquote : quote ∈ lexicon.escaped)
      (ht : QuotedBody quote t) (h : HoleBody lexicon s) : HoleBody lexicon (quote :: (t ++ quote :: s))
  | braced {t s : List Char} (ht : HoleBody lexicon t) (h : HoleBody lexicon s) :
      HoleBody lexicon ('\x7b' :: (t ++ '\x7d' :: s))

/-- What may stand in a template: escapes, holes, and no quote besides. -/
inductive TemplateBody (lexicon : Lexicon) (quote : Char) : List Char → Prop where
  | nil : TemplateBody lexicon quote []
  | plain {c : Char} {s : List Char} (hquote : c ≠ quote) (hescape : c ≠ '\\')
      (hhole : ¬(c = '$' ∧ s.head? = some '\x7b')) (h : TemplateBody lexicon quote s) :
      TemplateBody lexicon quote (c :: s)
  | escape {c : Char} {s : List Char} (h : TemplateBody lexicon quote s) :
      TemplateBody lexicon quote ('\\' :: c :: s)
  | hole {t s : List Char} (ht : HoleBody lexicon t) (h : TemplateBody lexicon quote s) :
      TemplateBody lexicon quote ('$' :: '\x7b' :: (t ++ '\x7d' :: s))

/-- A closed literal or comment, where `follows` comes next. -/
inductive Closed (lexicon : Lexicon) (follows : List Char) : List Char → Prop where
  /-- A comment up to the end of its line. -/
  | line {s : List Char} (h : '\n' ∉ s) (hend : ∀ c ∈ follows.head?, c = '\n') :
      Closed lexicon follows ('/' :: '/' :: s)
  /-- A comment that ends where it first says so. -/
  | block {s : List Char} (h : ¬['*', '/'] <:+: s) :
      Closed lexicon follows ('/' :: '*' :: (s ++ ['*', '/']))
  /-- A literal with escapes. -/
  | escaped {quote : Char} {s : List Char} (hquote : quote ∈ lexicon.escaped)
      (h : QuotedBody quote s) : Closed lexicon follows (quote :: (s ++ [quote]))
  /-- A literal without escapes. -/
  | raw {quote : Char} {s : List Char} (hquote : quote ∈ lexicon.raw) (h : quote ∉ s) :
      Closed lexicon follows (quote :: (s ++ [quote]))
  /-- A template. -/
  | template {quote : Char} {s : List Char} (hquote : lexicon.template = some quote)
      (h : TemplateBody lexicon quote s) : Closed lexicon follows (quote :: (s ++ [quote]))

/-- A character that begins a literal. -/
def IsQuote (lexicon : Lexicon) (c : Char) : Prop :=
  c ∈ lexicon.escaped ∨ c ∈ lexicon.raw ∨ lexicon.template = some c

instance (lexicon : Lexicon) : DecidablePred lexicon.IsQuote := fun c =>
  inferInstanceAs (Decidable (c ∈ lexicon.escaped ∨ c ∈ lexicon.raw ∨ lexicon.template = some c))

/-- The quotes of a language can be told from its other signs and from each other. -/
structure Tells (lexicon : Lexicon) : Prop where
  slash : ¬lexicon.IsQuote '/'
  backslash : ¬lexicon.IsQuote '\\'
  dollar : ¬lexicon.IsQuote '$'
  opening : ¬lexicon.IsQuote '\x7b'
  closing : ¬lexicon.IsQuote '\x7d'
  raw : ∀ c ∈ lexicon.raw, c ∉ lexicon.escaped
  template : ∀ c ∈ lexicon.template, c ∉ lexicon.escaped ∧ c ∉ lexicon.raw

theorem tells_script : script.Tells := by
  constructor <;> simp [IsQuote, script]

theorem tells_go : go.Tells := by
  constructor <;> simp [IsQuote, go]

/-! ### Lengths -/

variable {lexicon : Lexicon} {quote : Char} {s : List Char}

theorem escapedLength_cons {c : Char} (hc : c ≠ '\\') (rest : List Char) (n : Nat) :
    escapedLength quote (c :: rest) n =
      if c = quote then n + 1 else escapedLength quote rest (n + 1) := by
  rw [escapedLength]
  · rintro rfl
    exact absurd rfl hc
  · rintro d more rfl
    exact absurd rfl hc

/-- A literal with escapes is measured to its closing quote. -/
theorem escapedLength_append (hquote : quote ≠ '\\') (h : QuotedBody quote s) (rest : List Char)
    (n : Nat) : escapedLength quote (s ++ quote :: rest) n = n + s.length + 1 := by
  induction h generalizing n with
  | nil => rw [List.nil_append, escapedLength_cons hquote, if_pos rfl, List.length_nil]
  | plain hother hescape _ ih =>
    rw [List.cons_append, escapedLength_cons hescape, if_neg hother, ih, List.length_cons]
    omega
  | escape _ ih =>
    rw [List.cons_append, List.cons_append, escapedLength, ih, List.length_cons, List.length_cons]
    omega

theorem holeLength_skip (t rest : List Char) (depth n : Nat) :
    holeLength lexicon (t ++ rest) t.length depth n =
      holeLength lexicon rest 0 depth (n + t.length) := by
  induction t generalizing n with
  | nil => rfl
  | cons c t ih =>
    rw [List.cons_append, List.length_cons, holeLength, ih]
    congr 1
    omega

/-- What may stand in a hole is passed over, at every depth. -/
theorem holeLength_append (hlexicon : lexicon.Tells) (h : HoleBody lexicon s) (rest : List Char)
    {depth : Nat} (hdepth : 1 ≤ depth) (n : Nat) :
    holeLength lexicon (s ++ rest) 0 depth n = holeLength lexicon rest 0 depth (n + s.length) := by
  induction h generalizing rest depth n with
  | nil => rfl
  | plain hquote hopen hclose _ ih =>
    rw [List.cons_append, holeLength, if_neg hquote, if_neg hopen, if_neg hclose, ih rest hdepth,
      List.length_cons]
    congr 1
    omega
  | @quoted quote t s hquote ht _ ih =>
    have hplain : quote ≠ '\\' := by
      rintro rfl
      exact hlexicon.backslash (.inl hquote)
    have hlength : escapedLength quote (t ++ quote :: (s ++ rest)) 0 = (t ++ [quote]).length := by
      rw [escapedLength_append hplain ht, List.length_append, List.length_singleton, Nat.zero_add]
    have htext : t ++ quote :: (s ++ rest) = (t ++ [quote]) ++ (s ++ rest) := by simp
    rw [List.cons_append, List.append_assoc, List.cons_append, holeLength, if_pos hquote, hlength,
      htext, holeLength_skip, ih rest hdepth]
    simp only [List.length_append, List.length_cons, List.length_nil]
    congr 1
    omega
  | @braced t s _ _ iht ih =>
    have hopen : '\x7b' ∉ lexicon.escaped := fun hmem => hlexicon.opening (.inl hmem)
    have hclose : '\x7d' ∉ lexicon.escaped := fun hmem => hlexicon.closing (.inl hmem)
    have hdeep : ¬(depth + 1 ≤ 1) := by omega
    rw [List.cons_append, List.append_assoc, List.cons_append, holeLength, if_neg hopen, if_pos rfl,
      iht _ (Nat.le_add_left 1 depth), holeLength, if_neg hclose, if_neg (by decide), if_pos rfl,
      if_neg hdeep, Nat.add_sub_cancel, ih rest hdepth]
    simp only [List.length_append, List.length_cons]
    congr 1
    omega

/-- A hole is measured to the brace that closes it. -/
theorem holeLength_close (hlexicon : lexicon.Tells) (h : HoleBody lexicon s) (rest : List Char) :
    holeLength lexicon (s ++ '\x7d' :: rest) 0 1 0 = s.length + 1 := by
  have hclose : '\x7d' ∉ lexicon.escaped := fun hmem => hlexicon.closing (.inl hmem)
  rw [holeLength_append hlexicon h _ (Nat.le_refl 1), holeLength, if_neg hclose, if_neg (by decide),
    if_pos rfl, if_pos (Nat.le_refl 1), Nat.zero_add]

theorem templateLength_skip (t rest : List Char) (n : Nat) :
    templateLength lexicon quote (t ++ rest) t.length n =
      templateLength lexicon quote rest 0 (n + t.length) := by
  induction t generalizing n with
  | nil => rfl
  | cons c t ih =>
    rw [List.cons_append, List.length_cons, templateLength, ih]
    congr 1
    omega

theorem templateLength_plain {c : Char} {rest : List Char} (hquote : c ≠ quote) (hescape : c ≠ '\\')
    (hhole : ¬(c = '$' ∧ rest.head? = some '\x7b')) (n : Nat) :
    templateLength lexicon quote (c :: rest) 0 n = templateLength lexicon quote rest 0 (n + 1) := by
  rw [templateLength, if_neg hescape, if_neg hquote]
  rintro hole rfl rfl
  exact hhole ⟨rfl, rfl⟩

theorem templateLength_quote (hescape : quote ≠ '\\') (rest : List Char) (n : Nat) :
    templateLength lexicon quote (quote :: rest) 0 n = n + 1 := by
  unfold templateLength
  simp [hescape]

theorem templateLength_escape (c : Char) (rest : List Char) (n : Nat) :
    templateLength lexicon quote ('\\' :: c :: rest) 0 n =
      templateLength lexicon quote rest 0 (n + 2) := by
  rw [templateLength, if_pos rfl, templateLength]
  intro hole hc
  cases hc

theorem templateLength_hole (hquote : quote ≠ '$') (hole : List Char) (n : Nat) :
    templateLength lexicon quote ('$' :: '\x7b' :: hole) 0 n =
      templateLength lexicon quote ('\x7b' :: hole) (1 + holeLength lexicon hole 0 1 0) (n + 1) := by
  rw [templateLength, if_neg (by decide), if_neg hquote.symm]

/-- A template is measured to its closing quote. -/
theorem templateLength_append (hlexicon : lexicon.Tells) (htemplate : lexicon.template = some quote)
    (h : TemplateBody lexicon quote s) (rest : List Char) (n : Nat) :
    templateLength lexicon quote (s ++ quote :: rest) 0 n = n + s.length + 1 := by
  have hescape : quote ≠ '\\' := by
    rintro rfl
    exact hlexicon.backslash (.inr (.inr htemplate))
  have hopen : quote ≠ '\x7b' := by
    rintro rfl
    exact hlexicon.opening (.inr (.inr htemplate))
  have hdollar : quote ≠ '$' := by
    rintro rfl
    exact hlexicon.dollar (.inr (.inr htemplate))
  induction h generalizing n with
  | nil => rw [List.nil_append, templateLength_quote hescape, List.length_nil]
  | @plain c s hquote hplain hhole _ ih =>
    have hnext : ¬(c = '$' ∧ (s ++ quote :: rest).head? = some '\x7b') := by
      rintro ⟨hc, hhead⟩
      cases s with
      | nil => exact hopen (Option.some.inj hhead)
      | cons d s => exact hhole ⟨hc, hhead⟩
    rw [List.cons_append, templateLength_plain hquote hplain hnext, ih, List.length_cons]
    omega
  | escape _ ih =>
    rw [List.cons_append, List.cons_append, templateLength_escape, ih, List.length_cons,
      List.length_cons]
    omega
  | @hole t s ht _ ih =>
    have htext : '\x7b' :: (t ++ '\x7d' :: s) ++ quote :: rest =
        '\x7b' :: t ++ ['\x7d'] ++ (s ++ quote :: rest) := by simp
    have hbody : t ++ '\x7d' :: s ++ quote :: rest = t ++ '\x7d' :: (s ++ quote :: rest) := by simp
    have hlength : 1 + (t.length + 1) = ('\x7b' :: t ++ ['\x7d']).length := by
      simp
      omega
    rw [List.cons_append, List.cons_append, templateLength_hole hdollar, hbody,
      holeLength_close hlexicon ht, ← hbody, ← List.cons_append, htext, hlength, templateLength_skip, ih]
    simp only [List.length_append, List.length_cons, List.length_nil]
    omega

/-! ### Literals and comments -/

theorem findFrom_eq {needle s rest : List Char} (hneedle : needle ≠ [])
    (h : ∀ front back, s = front ++ back → back ≠ [] → ¬needle <+: back ++ (needle ++ rest))
    (start : Nat) : findFrom needle start (s ++ (needle ++ rest)) = some (start + s.length) := by
  induction s generalizing start with
  | nil =>
    obtain ⟨c, needle, rfl⟩ := List.exists_cons_of_ne_nil hneedle
    have hhere : (c :: needle).isPrefixOf (c :: (needle ++ rest)) = true := by
      rw [List.isPrefixOf_iff_prefix]
      exact List.prefix_append (c :: needle) rest
    rw [List.nil_append, List.cons_append, findFrom, if_pos hhere]
    rfl
  | cons c s ih =>
    have hnot : ¬needle.isPrefixOf (c :: (s ++ (needle ++ rest))) = true := by
      rw [List.isPrefixOf_iff_prefix]
      exact h [] (c :: s) rfl (List.cons_ne_nil c s)
    rw [List.cons_append, findFrom, if_neg hnot, ih, List.length_cons]
    · congr 1
      omega
    · intro front back hs hback
      exact h (c :: front) back (by rw [hs]; rfl) hback

/-- A comment is found to end where it first says so. -/
theorem find_block {s : List Char} (h : ¬['*', '/'] <:+: s) (rest : List Char) :
    find ['*', '/'] (s ++ (['*', '/'] ++ rest)) = some s.length := by
  rw [find, findFrom_eq (by simp), Nat.zero_add]
  rintro front back rfl hback hbegins
  cases back with
  | nil => exact hback rfl
  | cons c back =>
    obtain ⟨rfl, hslash⟩ := List.cons_prefix_cons.mp hbegins
    cases back with
    | nil => exact absurd (List.cons_prefix_cons.mp hslash).1 (by decide)
    | cons d back =>
      obtain ⟨rfl, -⟩ := List.cons_prefix_cons.mp hslash
      exact h ⟨front, back, by simp⟩

theorem find_quote {s : List Char} (h : quote ∉ s) (rest : List Char) :
    find [quote] (s ++ ([quote] ++ rest)) = some s.length := by
  rw [find, findFrom_eq (by simp), Nat.zero_add]
  rintro front back rfl hback hbegins
  cases back with
  | nil => exact hback rfl
  | cons c back =>
    obtain ⟨rfl, -⟩ := List.cons_prefix_cons.mp hbegins
    exact h (by simp)

/-- What begins with no slash is measured by its quote alone. -/
theorem opaqueLength?_of_ne {c : Char} (hc : c ≠ '/') (rest : List Char) :
    lexicon.opaqueLength? c rest =
      if c ∈ lexicon.escaped then some (1 + escapedLength c rest 0)
      else if c ∈ lexicon.raw then
        match Text.find [c] rest with
        | some i => some (i + 2)
        | none => some (1 + rest.length)
      else if lexicon.template = some c then some (1 + templateLength lexicon c rest 0 0)
      else none := by
  unfold opaqueLength?
  split
  · exact absurd rfl hc
  · exact absurd rfl hc
  · rfl

theorem Tells.ne_slash (hlexicon : lexicon.Tells) {c : Char} (h : lexicon.IsQuote c) : c ≠ '/' := by
  rintro rfl
  exact hlexicon.slash h

/-- A comment up to the end of its line is taken as a whole. -/
theorem takeWhile_of_line {follows : List Char} (hline : '\n' ∉ s) (hend : ∀ c ∈ follows.head?, c = '\n') :
    (s ++ follows).takeWhile (· != '\n') = s := by
  have hnone : follows.takeWhile (· != '\n') = [] := by
    cases follows with
    | nil => rfl
    | cons c follows => rw [List.takeWhile_cons_of_neg (by simp [hend c rfl])]
  have hall : ∀ c ∈ s, (c != '\n') = true := by
    intro c hc
    rw [bne_iff_ne]
    rintro rfl
    exact hline hc
  rw [List.takeWhile_append_of_pos hall, hnone, List.append_nil]

/-- **A closed literal or comment is measured to its end.** -/
theorem opaqueLength?_of_closed (hlexicon : lexicon.Tells) {follows : List Char}
    (h : Closed lexicon follows s) :
    ∃ c t, s = c :: t ∧ lexicon.opaqueLength? c (t ++ follows) = some s.length := by
  cases h with
  | @line s hline hend =>
    refine ⟨'/', '/' :: s, rfl, ?_⟩
    rw [List.cons_append]
    simp only [opaqueLength?, takeWhile_of_line hline hend, List.length_cons]
    congr 1
    omega
  | @block s hblock =>
    refine ⟨'/', '*' :: (s ++ ['*', '/']), rfl, ?_⟩
    rw [List.cons_append, List.append_assoc]
    simp only [opaqueLength?, find_block hblock, List.length_append, List.length_cons, List.length_nil]
  | @escaped quote s hquote hbody =>
    have hslash := hlexicon.ne_slash (.inl hquote)
    have hescape : quote ≠ '\\' := by
      rintro rfl
      exact hlexicon.backslash (.inl hquote)
    refine ⟨quote, s ++ [quote], rfl, ?_⟩
    rw [List.append_assoc, List.singleton_append, opaqueLength?_of_ne hslash, if_pos hquote,
      escapedLength_append hescape hbody]
    simp only [List.length_append, List.length_cons, List.length_nil]
    congr 1
    omega
  | @raw quote s hquote hbody =>
    have hslash := hlexicon.ne_slash (.inr (.inl hquote))
    refine ⟨quote, s ++ [quote], rfl, ?_⟩
    rw [List.append_assoc, opaqueLength?_of_ne hslash, if_neg (hlexicon.raw quote hquote),
      if_pos hquote, find_quote hbody]
    simp
  | @template quote s hquote hbody =>
    have hslash := hlexicon.ne_slash (.inr (.inr hquote))
    obtain ⟨hescaped, hraw⟩ := hlexicon.template quote hquote
    refine ⟨quote, s ++ [quote], rfl, ?_⟩
    rw [List.append_assoc, List.singleton_append, opaqueLength?_of_ne hslash, if_neg hescaped,
      if_neg hraw, if_pos hquote, templateLength_append hlexicon hquote hbody]
    simp only [List.length_append, List.length_cons, List.length_nil]
    congr 1
    omega

/-- A character that begins no literal and no comment is code. -/
theorem opaqueLength?_of_code {c : Char} {rest : List Char} (hquote : ¬lexicon.IsQuote c)
    (hcomment : c = '/' → ∀ d ∈ rest.head?, d ≠ '/' ∧ d ≠ '*') :
    lexicon.opaqueLength? c rest = none := by
  simp only [IsQuote, not_or] at hquote
  unfold opaqueLength?
  split
  · exact absurd rfl (hcomment rfl '/' rfl).1
  · exact absurd rfl (hcomment rfl '*' rfl).2
  · rw [if_neg hquote.1, if_neg hquote.2.1, if_neg hquote.2.2]

end Lexicon

end Vicinity
