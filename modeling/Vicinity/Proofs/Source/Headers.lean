import Vicinity.Proofs.Declaration.Heads
import Vicinity.Source.Go

/-!
# Headers of functions

The header of a function that begins a line is found where it stands, with its name. In a script it may be
found from the keywords on the lines before that belong to it. In a Go source a header before it may take
it for a part of its type parameters.

## What is proved

* `Script.captured_of_functionHeader`, `GoSource.eq_of_functionHeader`: what the header of a function reads.
* `GoSource.not_over_of_functionHeader`: which headers do not reach into a function.
* `Script.exists_mem_findAll_function`, `GoSource.exists_mem_findAll_function`: the header of a function is
  found.
-/

namespace Vicinity

open Text Text.Pattern

/-! ### Headers that end with a parenthesis -/

/-- The first parenthesis cuts a text in one way. -/
theorem cut_at_parenthesis {s t rest rest' : List Char} (hs : '(' ∉ s) (ht : '(' ∉ t)
    (h : s ++ '(' :: rest = t ++ '(' :: rest') : s = t ∧ rest = rest' := by
  have hnot : ∀ {u : List Char}, '(' ∉ u → ∀ c ∈ u, (c != '(') = true := by
    intro u hu c hc
    rw [bne_iff_ne]
    rintro rfl
    exact hu hc
  obtain ⟨rfl, hrest⟩ := append_inj_of_class (hnot hs) (hnot ht) (by simp) (by simp) h
  exact ⟨rfl, (List.cons.inj hrest).2⟩

/-- A text up to its first parenthesis that reaches into a function reaches to the parenthesis of that
function. -/
theorem eq_of_reaches {keyword lead name front rest rest' : List Char} (hkeyword : '(' ∉ keyword)
    (hname : IsWord name) (hfront : '(' ∉ front) (hle : lead.length ≤ front.length)
    (h : lead ++ ((keyword ++ ' ' :: (name ++ ['('])) ++ rest) = front ++ '(' :: rest') :
    front = lead ++ (keyword ++ ' ' :: name) ∧ rest' = rest := by
  obtain ⟨more, rfl⟩ : lead <+: front := List.prefix_of_prefix_length_le ⟨_, h⟩ ⟨_, rfl⟩ hle
  have hnone : '(' ∉ lead ++ (keyword ++ ' ' :: name) := by
    simp only [List.mem_append, List.mem_cons, not_or]
    refine ⟨fun hmem => hfront (List.mem_append_left _ hmem), hkeyword, by decide, fun hmem => ?_⟩
    exact absurd (hname.isWordChar _ hmem) (by decide)
  obtain ⟨hsame, hrest⟩ := cut_at_parenthesis hnone hfront (by
    simpa only [List.append_assoc, List.cons_append, List.nil_append] using h)
  exact ⟨hsame.symm, hrest.symm⟩

/-- Nothing that does not end with a word stands at the end of a text that ends with one. -/
theorem eq_nil_of_append_word {name s t u : List Char} (hname : IsWord name)
    (hu : ∀ c ∈ u.getLast?, isWordChar c = false) (h : s ++ name = t ++ u) : u = [] := by
  by_contra hne
  obtain ⟨front, c, hlast⟩ := (List.eq_nil_or_concat name).resolve_left hname.ne_nil
  have hc : isWordChar c = true := hname.isWordChar c (by rw [hlast]; simp)
  have hends := congrArg List.getLast? h
  rw [List.getLast?_append_of_ne_nil _ hname.ne_nil, List.getLast?_append_of_ne_nil _ hne, hlast,
    List.concat_eq_append, List.getLast?_concat] at hends
  have hno := hu c hends.symm
  rw [hc] at hno
  cases hno

/-- Blanks at the end of a text that does not end with a word. -/
theorem last_of_blanks {s blank : List Char} (hs : ∀ c ∈ s.getLast?, isWordChar c = false)
    (hblank : ∀ c ∈ blank, isBlank c = true) : ∀ c ∈ (s ++ blank).getLast?, isWordChar c = false := by
  rcases List.eq_nil_or_concat blank with rfl | ⟨blank, b, rfl⟩
  · rwa [List.append_nil]
  · rw [List.concat_eq_append, ← List.append_assoc, List.getLast?_concat]
    rintro c ⟨⟩
    exact isWordChar_of_isBlank (hblank b (by simp))

/-- A character of a word or a blank. -/
def isPhraseChar (c : Char) : Bool := isWordChar c || isBlank c

theorem not_mem_of_phrase {s : List Char} (h : ∀ c ∈ s, isPhraseChar c = true) : '(' ∉ s := by
  intro hmem
  have hno := h '(' hmem
  revert hno
  decide

theorem isPhraseChar_of_leads {words : List (List Char)} {s : List Char}
    (h : Leads (· = []) words s) : ∀ c ∈ s, isPhraseChar c = true := by
  induction h with
  | here hs =>
    subst hs
    simp
  | word hword _ hblank _ ih =>
    intro c hc
    rw [isPhraseChar, Bool.or_eq_true]
    rcases List.mem_append.mp hc with hc | hc
    · exact .inl (hword.isWordChar c hc)
    · rcases List.mem_append.mp hc with hc | hc
      · exact .inr (hblank c hc)
      · exact (Bool.or_eq_true _ _).mp (ih c hc)

/-- The last word of some words, with the blanks after it. -/
theorem Leads.exists_last {words : List (List Char)} {s : List Char} (h : Leads (· = []) words s)
    (hne : s ≠ []) : ∃ front w gap, w ∈ words ∧ IsWord w ∧ gap ≠ [] ∧ (∀ c ∈ gap, isBlank c = true) ∧
      s = front ++ w ++ gap := by
  induction h with
  | here hs => exact absurd hs hne
  | @word w gap s words hword hgap hblank _ ih =>
    by_cases hs : s = []
    · subst hs
      exact ⟨[], w, gap, List.mem_cons_self, hword, hgap, hblank, by simp⟩
    · obtain ⟨front, w', gap', hmem, hword', hgap', hblank', rfl⟩ := ih hs
      refine ⟨w ++ (gap ++ front), w', gap', List.mem_cons_of_mem _ hmem, hword', hgap', hblank', ?_⟩
      simp only [List.append_assoc]

namespace Script

/-! ### The header of a function of a script -/

/-- The keywords that may stand before a function. -/
def beforeFunction : Pattern := exported ++ opt (text "async" ++ gap)

/-- None of the keywords before a function ends as the word `function` does. -/
theorem last_of_beforeFunction {lead : List Char} {a : List (List Char)}
    (h : beforeFunction.Reads lead a) : (∀ c ∈ lead, isPhraseChar c = true) ∧
      (lead ≠ [] → ∃ front c gap, c ≠ 'n' ∧ isBlank c = false ∧ gap ≠ [] ∧
        (∀ b ∈ gap, isBlank b = true) ∧ lead = front ++ [c] ++ gap) := by
  obtain ⟨t, u, _, _, rfl, -, ht, hu⟩ := reads_append.mp h
  obtain ⟨words, hwords, hleads⟩ := isModifiers_of_exported ht
  obtain ⟨words', hwords', hleads'⟩ := exists_leads_of_opt ["async".toList]
    (fun s a hs => List.mem_singleton.mpr (reads_text.mp hs).1)
    (fun w hw => List.mem_singleton.mp hw ▸ isWord_of_all (by decide) (by decide)) hu
  have hall := hleads.append hleads'
  refine ⟨isPhraseChar_of_leads hall, fun hne => ?_⟩
  obtain ⟨front, w, gap, hmem, hword, hgap, hblank, heq⟩ := hall.exists_last hne
  have hends : ∀ w ∈ lineModifiers ++ ["async".toList], w.getLast? ≠ some 'n' := by decide
  have hlast : w.getLast? ≠ some 'n' := hends w <| List.mem_append.mpr <|
    (List.mem_append.mp hmem).imp (hwords w) (hwords' w)
  obtain ⟨rest, c, rfl⟩ := (List.eq_nil_or_concat w).resolve_left hword.ne_nil
  rw [List.concat_eq_append] at hlast heq hword
  have hc : isWordChar c = true := hword.isWordChar c (by simp)
  refine ⟨front ++ rest, c, gap, ?_, isBlank_of_beginsWord ⟨c, [], rfl, hc⟩ c rfl, hgap, hblank, ?_⟩
  · rintro rfl
    exact hlast (List.getLast?_concat ..)
  · rw [heq]
    simp only [List.append_assoc]

/-- What a type in angle brackets before the parameters reads. -/
theorem reads_types {t : List Char} {a : List (List Char)}
    (h : (opt (text "<" ++ .run 0 (· != '(') ++ text ">")).Reads t a) :
    '(' ∉ t ∧ (∀ c ∈ t.getLast?, isWordChar c = false) ∧ a = [] := by
  rcases reads_opt.mp h with h | ⟨rfl, rfl⟩
  · obtain ⟨t₁, close, _, _, rfl, rfl, h₁, hclose⟩ := reads_append.mp h
    obtain ⟨opening, inside, _, _, rfl, rfl, hopening, hinside⟩ := reads_append.mp h₁
    obtain ⟨rfl, rfl⟩ := reads_text.mp hclose
    obtain ⟨rfl, rfl⟩ := reads_text.mp hopening
    obtain ⟨-, hchars, rfl⟩ := reads_run.mp hinside
    refine ⟨fun hmem => ?_, ?_, rfl⟩
    · simp only [List.mem_append] at hmem
      rcases hmem with (hmem | hmem) | hmem
      · exact absurd hmem (by decide)
      · exact absurd (hchars _ hmem) (by decide)
      · exact absurd hmem (by decide)
    · have hlast : ("<".toList ++ inside ++ ">".toList).getLast? = some '>' := List.getLast?_concat ..
      rw [hlast]
      rintro c ⟨⟩
      decide
  · simp

theorem reads_star {t : List Char} {a : List (List Char)} (h : (opt (text "*")).Reads t a) :
    (∀ c ∈ t, c = '*') ∧ a = [] := by
  rcases reads_opt.mp h with h | ⟨rfl, rfl⟩
  · obtain ⟨rfl, rfl⟩ := reads_text.mp h
    simp
  · simp

/-- What the header of a function reads. -/
theorem reads_functionHeader {t : List Char} {captured : List (List Char)}
    (h : functionHeader.Reads t captured) : ∃ lead stars name types,
      t = lead ++ "function".toList ++ stars ++ name ++ types ++ ['('] ∧ captured = [name] ∧
      beforeFunction.Reads lead [] ∧ (∀ c ∈ stars, isBlank c = true ∨ c = '*') ∧ IsWord name ∧
      '(' ∉ types ∧ ∀ c ∈ types.getLast?, isWordChar c = false := by
  obtain ⟨t₈, close, _, _, rfl, hcaptured, h₈, hclose⟩ := reads_append.mp h
  obtain ⟨t₇, blank₄, _, _, rfl, rfl, h₇, hblank₄⟩ := reads_append.mp h₈
  obtain ⟨t₆, types, _, _, rfl, rfl, h₆, htypes⟩ := reads_append.mp h₇
  obtain ⟨t₅, blank₃, _, _, rfl, rfl, h₅, hblank₃⟩ := reads_append.mp h₆
  obtain ⟨t₄, name, _, _, rfl, rfl, h₄, hname⟩ := reads_append.mp h₅
  obtain ⟨t₃, blank₂, _, _, rfl, rfl, h₃, hblank₂⟩ := reads_append.mp h₄
  obtain ⟨t₂, star, _, _, rfl, rfl, h₂, hstar⟩ := reads_append.mp h₃
  obtain ⟨t₁, blank₁, _, _, rfl, rfl, h₁, hblank₁⟩ := reads_append.mp h₂
  obtain ⟨lead, keyword, b, _, rfl, rfl, hlead, hkeyword⟩ := reads_append.mp h₁
  obtain ⟨rfl, rfl⟩ := reads_text.mp hclose
  obtain ⟨rfl, rfl⟩ := reads_text.mp hkeyword
  obtain ⟨hspace₁, rfl⟩ := reads_blanks.mp hblank₁
  obtain ⟨hspace₂, rfl⟩ := reads_blanks.mp hblank₂
  obtain ⟨hspace₃, rfl⟩ := reads_blanks.mp hblank₃
  obtain ⟨hspace₄, rfl⟩ := reads_blanks.mp hblank₄
  obtain ⟨hparenthesis, hlast, rfl⟩ := reads_types htypes
  obtain ⟨hstars, rfl⟩ := reads_star hstar
  obtain ⟨_, hcapture, rfl⟩ := reads_capture.mp hname
  obtain ⟨hword, rfl⟩ := reads_word.mp hcapture
  have hnone := hlead.length_le (show beforeFunction.captureBound = some 0 by decide +kernel)
  obtain rfl := List.eq_nil_of_length_eq_zero (Nat.le_zero.mp hnone)
  have hblanks : ∀ {u : List Char}, (∀ c ∈ u, isBlank c = true) → '(' ∉ u := fun hu hmem =>
    absurd (hu _ hmem) (by decide)
  refine ⟨lead, blank₁ ++ (star ++ blank₂), name, blank₃ ++ (types ++ blank₄), ?_,
    by simpa using hcaptured, hlead, ?_, hword, ?_, ?_⟩
  · simp only [List.append_assoc]
    rfl
  · intro c hc
    simp only [List.mem_append] at hc
    rcases hc with hc | hc | hc
    · exact .inl (hspace₁ c hc)
    · exact .inr (hstars c hc)
    · exact .inl (hspace₂ c hc)
  · simp only [List.mem_append, not_or]
    exact ⟨hblanks hspace₃, hparenthesis, hblanks hspace₄⟩
  · by_cases hempty : types = []
    · rw [hempty, List.nil_append, ← List.nil_append (blank₃ ++ blank₄)]
      exact last_of_blanks (by simp) (List.forall_mem_append.mpr ⟨hspace₃, hspace₄⟩)
    · rw [← List.append_assoc]
      refine last_of_blanks ?_ hspace₄
      rwa [List.getLast?_append_of_ne_nil _ hempty]

theorem getLast?_functionKeyword (u : List Char) : (u ++ "function".toList).getLast? = some 'n' :=
  List.getLast?_append_of_ne_nil u (by decide)

/-- The name of a function is not run together with the keyword, for then another keyword would end as the
word `function` does. -/
theorem not_run_together {lead lead' name name' : List Char} (hname : IsWord name) (hname' : IsWord name')
    (hlead : beforeFunction.Reads lead' []) :
    lead ++ "function".toList ++ [' '] ++ name ≠ lead' ++ ("function".toList ++ name') := by
  intro h
  obtain ⟨-, hbefore⟩ := last_of_beforeFunction hlead
  have hspace : ∀ c ∈ (lead ++ "function".toList ++ [' ']).getLast?, isWordChar c = false := by
    rw [List.getLast?_concat]
    rintro c ⟨⟩
    decide
  have hword : ∀ c ∈ "function".toList ++ name', isWordChar c = true :=
    List.forall_mem_append.mpr ⟨List.all_eq_true.mp (by decide), hname'.isWordChar⟩
  have hlast : ∀ c ∈ lead'.getLast?, isWordChar c = false := by
    by_cases hne : lead' = []
    · simp [hne]
    · obtain ⟨front, c, gap, -, -, hgap, hblank, rfl⟩ := hbefore hne
      rw [List.getLast?_append_of_ne_nil _ hgap]
      intro b hb
      exact isWordChar_of_isBlank (hblank b (List.mem_of_getLast? hb))
  obtain ⟨hfront, -⟩ := append_inj_of_class_right hname.isWordChar hword hspace hlast h
  obtain ⟨front, c, gap, hc, hplain, -, hblank, rfl⟩ := hbefore (by rw [← hfront]; simp)
  obtain ⟨hkeyword, -⟩ := append_inj_of_class_right (p := isBlank) (by simp; decide) hblank
    (by rw [getLast?_functionKeyword]; rintro c ⟨⟩; decide)
    (by rw [List.getLast?_concat]; rintro c ⟨⟩; exact hplain) hfront
  have hends := congrArg List.getLast? hkeyword
  rw [getLast?_functionKeyword, List.getLast?_concat] at hends
  exact hc (Option.some.inj hends).symm

/-- What stands between the keyword and the name of a function, where a space does: the two readings have
what comes before the keyword in common. -/
theorem eq_of_stars {lead lead' stars name name' : List Char} (hname : IsWord name)
    (hname' : IsWord name') (hne : stars ≠ []) (hstars : ∀ c ∈ stars, isWordChar c = false)
    (h : lead ++ "function".toList ++ [' '] ++ name = lead' ++ "function".toList ++ stars ++ name') :
    lead = lead' ∧ name = name' := by
  obtain ⟨stars, d, rfl⟩ := (List.eq_nil_or_concat stars).resolve_left hne
  rw [List.concat_eq_append] at h hstars
  obtain ⟨hfront, hnames⟩ := append_inj_of_class_right hname.isWordChar hname'.isWordChar
    (by rw [List.getLast?_concat]; rintro c ⟨⟩; decide)
    (by
      rw [← List.append_assoc, List.getLast?_concat]
      rintro c ⟨⟩
      exact hstars d (by simp)) h
  rw [← List.append_assoc _ stars] at hfront
  obtain ⟨hfront, -⟩ := List.append_inj' hfront rfl
  obtain rfl : stars = [] := by
    by_contra hmore
    have hends := congrArg List.getLast? hfront
    rw [getLast?_functionKeyword, List.getLast?_append_of_ne_nil _ hmore] at hends
    have hno := hstars 'n' (List.mem_append_left _ (List.mem_of_getLast? hends.symm))
    exact absurd hno (by decide)
  rw [List.append_nil] at hfront
  exact ⟨List.append_cancel_right hfront, hnames⟩

/-- **What the header of a function has read**, if it has got to the parenthesis of a function that begins
with its keyword: the name of that function, and nothing before the keyword but what may stand there. -/
theorem captured_of_functionHeader {lead name : List Char} (hname : IsWord name)
    {captured : List (List Char)}
    (h : functionHeader.Reads (lead ++ ("function".toList ++ ' ' :: (name ++ ['(']))) captured) :
    captured = [name] ∧ beforeFunction.Reads lead [] := by
  obtain ⟨lead', stars, name', types, heq, rfl, hlead', hstars, hname', -, htypes⟩ :=
    reads_functionHeader h
  have hclosed : lead ++ "function".toList ++ [' '] ++ name ++ ['('] =
      lead' ++ "function".toList ++ stars ++ name' ++ types ++ ['('] := by
    rw [← heq]
    simp only [List.append_assoc, List.cons_append, List.nil_append]
  have hcut := List.append_cancel_right hclosed
  -- The text before the parenthesis ends with a word, so no types stand there.
  obtain rfl : types = [] := eq_nil_of_append_word hname htypes hcut
  rw [List.append_nil] at hcut
  have hother : ∀ c ∈ stars, isWordChar c = false := by
    intro c hc
    rcases hstars c hc with hblank | rfl
    · exact isWordChar_of_isBlank hblank
    · decide
  by_cases hne : stars = []
  · rw [hne, List.append_nil, List.append_assoc lead'] at hcut
    exact absurd hcut (not_run_together hname hname' hlead')
  · obtain ⟨rfl, rfl⟩ := eq_of_stars hname hname' hne hother hcut
    exact ⟨rfl, hlead'⟩

/-- The header of a function goes up to its first parenthesis. -/
theorem exists_parenthesis_of_functionHeader {t : List Char} {captured : List (List Char)}
    (h : functionHeader.Reads t captured) : ∃ front, t = front ++ ['('] ∧ '(' ∉ front := by
  obtain ⟨lead, stars, name, types, rfl, -, hlead, hstars, hname, htypes, -⟩ := reads_functionHeader h
  refine ⟨_, rfl, ?_⟩
  simp only [List.mem_append, not_or]
  refine ⟨⟨⟨⟨?_, by decide⟩, fun hmem => ?_⟩, fun hmem => ?_⟩, htypes⟩
  · exact not_mem_of_phrase (last_of_beforeFunction hlead).1
  · exact absurd (hstars _ hmem) (by decide)
  · exact absurd (hname.isWordChar _ hmem) (by decide)

theorem reads_function {name : List Char} (hname : IsWord name) :
    functionHeader.Reads ("function".toList ++ ' ' :: (name ++ ['('])) [name] := by
  have hexported : exported.Reads [] [] := .both .lineStart (reads_opt.mpr (.inr ⟨rfl, rfl⟩))
  have hlead : beforeFunction.Reads [] [] := .both hexported (reads_opt.mpr (.inr ⟨rfl, rfl⟩))
  have hspace : blanks.Reads [' '] [] := reads_blanks.mpr ⟨by simp; decide, rfl⟩
  have hnone : blanks.Reads [] [] := reads_blanks.mpr ⟨by simp, rfl⟩
  have hcapture : (Pattern.capture word).Reads name [name] :=
    reads_capture.mpr ⟨[], reads_word.mpr ⟨hname, rfl⟩, rfl⟩
  have hreads : functionHeader.Reads
      ([] ++ "function".toList ++ [' '] ++ [] ++ [] ++ name ++ [] ++ [] ++ [] ++ "(".toList)
      ([] ++ [] ++ [] ++ [] ++ [] ++ [name] ++ [] ++ [] ++ [] ++ []) :=
    .both (.both (.both (.both (.both (.both (.both (.both (.both hlead (reads_text.mpr ⟨rfl, rfl⟩))
      hspace) (reads_opt.mpr (.inr ⟨rfl, rfl⟩))) hnone) hcapture) hnone)
      (reads_opt.mpr (.inr ⟨rfl, rfl⟩))) hnone) (reads_text.mpr ⟨rfl, rfl⟩)
  simp only [List.append_nil, List.nil_append, List.append_assoc] at hreads
  exact hreads

/-- **The header of a function is found where it stands**, or from the keywords that come before it on
other lines. -/
theorem exists_mem_findAll_function {before name : List Char}
    (hline : before.getLast?.all (· == '\n') = true) (hname : IsWord name) (rest : List Char) :
    ∃ m ∈ functionHeader.findAll (before ++ (("function".toList ++ ' ' :: (name ++ ['('])) ++ rest)),
      ∃ earlier lead, before = earlier ++ lead ∧ beforeFunction.Reads lead [] ∧
        m.start = earlier.length ∧ m.captured = [name] ∧ m.stop.rest = rest ∧
        m.stop.offset = (before ++ ("function".toList ++ ' ' :: (name ++ ['(']))).length := by
  obtain ⟨stop, -, m, hm, hwhere⟩ :=
    exists_mem_findAll_of_lineStart (by decide +kernel) hline (reads_function hname) rest
  refine ⟨m, hm, ?_⟩
  obtain ⟨earlier, t, hreads, hsource, hstart, hoffset⟩ := exists_reads_of_mem_findAll hm
  obtain ⟨front, rfl, hfront⟩ := exists_parenthesis_of_functionHeader hreads
  rw [List.length_append, List.length_append, List.length_singleton] at hoffset
  have hle : earlier.length ≤ before.length ∧ before.length ≤ (earlier ++ front).length := by
    rw [List.length_append]
    rcases hwhere with rfl | ⟨hbefore, hbehind⟩
    · have hsame : before.length = earlier.length := hstart
      omega
    · omega
  -- The match ends at the first parenthesis after its beginning, which is that of the function.
  obtain ⟨lead, rfl⟩ : ∃ lead, before = earlier ++ lead :=
    (List.prefix_of_prefix_length_le ⟨_, rfl⟩ ⟨_, hsource⟩ hle.1).imp fun _ h => h.symm
  rw [List.append_assoc, List.append_cancel_left_eq, List.append_assoc front] at hsource
  rw [List.length_append, List.length_append] at hle
  obtain ⟨rfl, hrest⟩ := eq_of_reaches (by decide) hname hfront (by omega) hsource
  rw [List.append_assoc lead, List.append_assoc "function".toList] at hreads
  obtain ⟨hcaptured, hlead⟩ := captured_of_functionHeader hname hreads
  refine ⟨earlier, lead, rfl, hlead, hstart, hcaptured, hrest, ?_⟩
  rw [hoffset]
  simp only [List.length_append, List.length_cons, List.length_nil]
  omega

end Script

namespace GoSource

/-! ### The header of a Go function -/

/-- What type parameters read: nothing, or what stands in brackets. -/
theorem reads_typeParameters {t : List Char} {a : List (List Char)} (h : typeParameters.Reads t a) :
    (t = [] ∨ ∃ inside, ']' ∉ inside ∧ t = '[' :: (inside ++ [']'])) ∧ a = [] := by
  rcases reads_opt.mp h with h | ⟨rfl, rfl⟩
  · obtain ⟨t₁, close, _, _, rfl, rfl, h₁, hclose⟩ := reads_append.mp h
    obtain ⟨opening, inside, _, _, rfl, rfl, hopening, hinside⟩ := reads_append.mp h₁
    obtain ⟨rfl, rfl⟩ := reads_text.mp hclose
    obtain ⟨rfl, rfl⟩ := reads_text.mp hopening
    obtain ⟨-, hchars, rfl⟩ := reads_run.mp hinside
    exact ⟨.inr ⟨inside, fun hmem => absurd (hchars _ hmem) (by decide), rfl⟩, rfl⟩
  · exact ⟨.inl rfl, rfl⟩

/-- What the header of a function reads. -/
theorem reads_functionHeader {t : List Char} {captured : List (List Char)}
    (h : functionHeader.Reads t captured) : ∃ space name blank types,
      t = "func".toList ++ (space ++ (name ++ (blank ++ (types ++ ['('])))) ∧ captured = [name] ∧
      space ≠ [] ∧ (∀ c ∈ space, isBlank c = true) ∧ IsWord name ∧ (∀ c ∈ blank, isBlank c = true) ∧
      (types = [] ∨ ∃ inside, ']' ∉ inside ∧ types = '[' :: (inside ++ [']'])) := by
  obtain ⟨t₅, close, _, _, rfl, hcaptured, h₅, hclose⟩ := reads_append.mp h
  obtain ⟨t₄, types, _, _, rfl, rfl, h₄, htypes⟩ := reads_append.mp h₅
  obtain ⟨t₃, blank, _, _, rfl, rfl, h₃, hblank⟩ := reads_append.mp h₄
  obtain ⟨t₂, name, _, _, rfl, rfl, h₂, hname⟩ := reads_append.mp h₃
  obtain ⟨t₁, space, _, _, rfl, rfl, h₁, hspace⟩ := reads_append.mp h₂
  obtain ⟨start, keyword, _, _, rfl, rfl, hstart, hkeyword⟩ := reads_append.mp h₁
  obtain ⟨rfl, rfl⟩ := reads_lineStart.mp hstart
  obtain ⟨rfl, rfl⟩ := reads_text.mp hkeyword
  obtain ⟨rfl, rfl⟩ := reads_text.mp hclose
  obtain ⟨hne, hspaces, rfl⟩ := reads_gap.mp hspace
  obtain ⟨hblanks, rfl⟩ := reads_blanks.mp hblank
  obtain ⟨hbrackets, rfl⟩ := reads_typeParameters htypes
  obtain ⟨_, hcapture, rfl⟩ := reads_capture.mp hname
  obtain ⟨hword, rfl⟩ := reads_word.mp hcapture
  refine ⟨space, name, blank, types, ?_, by simpa using hcaptured, hne, hspaces, hword, hblanks,
    hbrackets⟩
  simp only [List.nil_append, List.append_assoc]
  rfl

theorem reads_function {name : List Char} (hname : IsWord name) :
    functionHeader.Reads ("func".toList ++ ' ' :: (name ++ ['('])) [name] := by
  have hcapture : (Pattern.capture word).Reads name [name] :=
    reads_capture.mpr ⟨[], reads_word.mpr ⟨hname, rfl⟩, rfl⟩
  have hspace : gap.Reads [' '] [] := reads_gap.mpr ⟨by simp, by simp; decide, rfl⟩
  have hreads : functionHeader.Reads ([] ++ "func".toList ++ [' '] ++ name ++ [] ++ [] ++ "(".toList)
      ([] ++ [] ++ [] ++ [name] ++ [] ++ [] ++ []) :=
    .both (.both (.both (.both (.both (.both .lineStart (reads_text.mpr ⟨rfl, rfl⟩)) hspace) hcapture)
      (reads_blanks.mpr ⟨by simp, rfl⟩)) (reads_opt.mpr (.inr ⟨rfl, rfl⟩))) (reads_text.mpr ⟨rfl, rfl⟩)
  simp only [List.append_nil, List.nil_append, List.append_assoc] at hreads
  exact hreads

/-- A header of a function that has got into its type parameters and not to their end. -/
def openHeader : Pattern :=
  .lineStart ++ text "func" ++ gap ++ word ++ blanks ++ text "[" ++ .run 0 (· != ']')

theorem reads_openHeader {space name blank inside : List Char} (hne : space ≠ [])
    (hspace : ∀ c ∈ space, isBlank c = true) (hname : IsWord name)
    (hblank : ∀ c ∈ blank, isBlank c = true) (hinside : ']' ∉ inside) :
    openHeader.Reads ("func".toList ++ space ++ name ++ blank ++ '[' :: inside) [] := by
  have hchars : ∀ c ∈ inside, (c != ']') = true := by
    intro c hc
    rw [bne_iff_ne]
    rintro rfl
    exact hinside hc
  have hreads : openHeader.Reads ([] ++ "func".toList ++ space ++ name ++ blank ++ "[".toList ++ inside)
      ([] ++ [] ++ [] ++ [] ++ [] ++ [] ++ []) :=
    .both (.both (.both (.both (.both (.both .lineStart (reads_text.mpr ⟨rfl, rfl⟩))
      (reads_gap.mpr ⟨hne, hspace, rfl⟩)) (reads_word.mpr ⟨hname, rfl⟩))
      (reads_blanks.mpr ⟨hblank, rfl⟩)) (reads_text.mpr ⟨rfl, rfl⟩))
      (reads_run.mpr ⟨Nat.zero_le _, hchars, rfl⟩)
  simp only [List.append_nil, List.nil_append, List.append_assoc] at hreads ⊢
  exact hreads

theorem prefix_of_openHeader {t : List Char} {a : List (List Char)} (h : openHeader.Reads t a) :
    "func".toList <+: t := by
  have hstarts : (Pattern.lineStart ++ text "func").Starts t := by
    iterate 5 apply Starts.of_append
    exact ⟨t, a, [], h, (List.append_nil t).symm⟩
  obtain ⟨_, _, tail, hreads, rfl⟩ := hstarts
  obtain ⟨start, keyword, _, _, rfl, -, hstart, hkeyword⟩ := reads_append.mp hreads
  obtain ⟨rfl, -⟩ := reads_lineStart.mp hstart
  obtain ⟨rfl, -⟩ := reads_text.mp hkeyword
  exact ⟨tail, rfl⟩

/-- Where the header of a function begins, it reads that header and nothing else. -/
theorem eq_of_functionHeader {name t rest rest' : List Char} (hname : IsWord name)
    {captured : List (List Char)} (h : functionHeader.Reads t captured)
    (heq : ("func".toList ++ ' ' :: (name ++ ['('])) ++ rest = t ++ rest') :
    t = "func".toList ++ ' ' :: (name ++ ['(']) ∧ captured = [name] ∧ rest' = rest := by
  obtain ⟨space, name', blank, types, rfl, rfl, hne, hspace, hname', hblank, htypes⟩ :=
    reads_functionHeader h
  have hcut : "func".toList ++ ([' '] ++ (name ++ ('(' :: rest))) =
      "func".toList ++ (space ++ (name' ++ (blank ++ (types ++ '(' :: rest')))) := by
    simpa only [List.append_assoc, List.cons_append, List.nil_append] using heq
  obtain ⟨rfl, hnames⟩ := append_inj_of_class (p := isBlank) (by simp; decide) hspace
    (isBlank_of_beginsWord (beginsWord_append hname _))
    (isBlank_of_beginsWord (beginsWord_append hname' _)) (List.append_cancel_left hcut)
  have hhead : ∀ c ∈ (blank ++ (types ++ '(' :: rest')).head?, isWordChar c = false := by
    cases blank with
    | nil =>
      rcases htypes with rfl | ⟨inside, -, rfl⟩
      · rintro c ⟨⟩
        decide
      · rintro c ⟨⟩
        decide
    | cons b blank =>
      rintro c ⟨⟩
      exact isWordChar_of_isBlank (hblank b List.mem_cons_self)
  have hparenthesis : ∀ c ∈ ('(' :: rest).head?, isWordChar c = false := by
    rintro c ⟨⟩
    decide
  obtain ⟨rfl, hbehind⟩ :=
    append_inj_of_class hname.isWordChar hname'.isWordChar hparenthesis hhead hnames
  cases blank with
  | nil =>
    rcases htypes with rfl | ⟨inside, -, rfl⟩
    · exact ⟨rfl, rfl, (List.cons.inj hbehind).2.symm⟩
    · exact absurd (List.cons.inj hbehind).1 (by decide)
  | cons b blank =>
    have hb := hblank b List.mem_cons_self
    rw [← (List.cons.inj hbehind).1] at hb
    exact absurd hb (by decide)

section

variable {lead name space name' blank rest rest' : List Char}

/-- A header without type parameters is made of words and blanks. -/
theorem isPhraseChar_of_header (hspace : ∀ c ∈ space, isBlank c = true) (hname' : IsWord name')
    (hblank : ∀ c ∈ blank, isBlank c = true) :
    ∀ c ∈ "func".toList ++ space ++ name' ++ blank, isPhraseChar c = true := by
  have hkeyword : ∀ c ∈ "func".toList, isWordChar c = true := List.all_eq_true.mp (by decide)
  intro c hc
  rw [isPhraseChar, Bool.or_eq_true]
  simp only [List.mem_append] at hc
  rcases hc with ((hc | hc) | hc) | hc
  · exact .inl (hkeyword c hc)
  · exact .inr (hspace c hc)
  · exact .inl (hname'.isWordChar c hc)
  · exact .inr (hblank c hc)

/-- An earlier header without type parameters does not reach into a function: both would end at the same
parenthesis, and have the keyword and the name in common. -/
theorem not_over_without_types (hname : IsWord name) (hlead : lead ≠ []) (hne : space ≠ [])
    (hspace : ∀ c ∈ space, isBlank c = true) (hname' : IsWord name')
    (hblank : ∀ c ∈ blank, isBlank c = true)
    (heq : lead ++ (("func".toList ++ ' ' :: (name ++ ['('])) ++ rest) =
      "func".toList ++ space ++ name' ++ blank ++ '(' :: rest') :
    ¬lead.length ≤ ("func".toList ++ space ++ name' ++ blank).length := by
  intro hlong
  have hfront : '(' ∉ "func".toList ++ space ++ name' ++ blank :=
    not_mem_of_phrase (isPhraseChar_of_header hspace hname' hblank)
  obtain ⟨hreached, -⟩ := eq_of_reaches (by decide) hname hfront hlong heq
  have hsame : lead ++ "func".toList ++ [' '] ++ name = "func".toList ++ space ++ name' ++ blank := by
    rw [hreached]
    simp only [List.append_assoc, List.cons_append, List.nil_append]
  obtain rfl : blank = [] := by
    refine eq_nil_of_append_word hname ?_ hsame
    rw [← List.nil_append blank]
    exact last_of_blanks (by simp) hblank
  rw [List.append_nil] at hsame
  obtain ⟨hkeywords, -⟩ := append_inj_of_class_right hname.isWordChar hname'.isWordChar
    (by rw [List.getLast?_concat]; rintro c ⟨⟩; decide)
    (by
      rw [List.getLast?_append_of_ne_nil _ hne]
      exact fun c hc => isWordChar_of_isBlank (hspace c (List.mem_of_getLast? hc))) hsame
  have hlast : (lead ++ "func".toList).getLast? = some 'c' :=
    List.getLast?_append_of_ne_nil lead (by decide)
  obtain ⟨hlead', -⟩ := append_inj_of_class_right (p := isBlank) (by simp; decide) hspace
    (by rw [hlast]; rintro c ⟨⟩; decide) (by rintro c hc; cases hc; decide) hkeywords
  exact hlead (List.append_left_eq_self.mp hlead')

/-- An earlier header with type parameters that reaches into a function has got into them before it: the
bracket that opens them stands neither in the function's keyword nor in its name. -/
theorem reads_openHeader_of_over {inside : List Char} (hname : IsWord name) (hne : space ≠ [])
    (hspace : ∀ c ∈ space, isBlank c = true) (hname' : IsWord name')
    (hblank : ∀ c ∈ blank, isBlank c = true) (hinside : ']' ∉ inside)
    (heq : lead ++ ("func".toList ++ [' '] ++ name ++ '(' :: rest) =
      "func".toList ++ space ++ name' ++ blank ++ '[' :: (inside ++ ']' :: '(' :: rest'))
    (hlong : lead.length < ("func".toList ++ space ++ name' ++ blank).length + inside.length + 3) :
    openHeader.Reads lead [] := by
  rcases List.append_eq_append_iff.mp heq with ⟨u, hu, hdecl⟩ | ⟨_ | ⟨d, u⟩, rfl, hdecl⟩
  · have hphrase : ∀ c ∈ "func".toList ++ [' '] ++ name, isPhraseChar c = true := by
      refine List.forall_mem_append.mpr ⟨List.all_eq_true.mp (by decide), fun c hc => ?_⟩
      rw [isPhraseChar, hname.isWordChar c hc, Bool.true_or]
    have hmore : ∀ c ∈ u, isPhraseChar c = true := fun c hc =>
      isPhraseChar_of_header hspace hname' hblank c (by rw [hu]; exact List.mem_append_right _ hc)
    obtain ⟨-, hno⟩ := append_inj_of_class hphrase hmore (by rintro c ⟨⟩; decide)
      (by rintro c ⟨⟩; decide) hdecl
    exact absurd (List.cons.inj hno).1 (by decide)
  · exact absurd (List.cons.inj hdecl).1 (by decide)
  · obtain ⟨rfl, hinner⟩ := List.cons.inj hdecl
    have hshort : u.length < inside.length + 2 := by
      simp only [List.length_append, List.length_cons] at hlong
      omega
    refine reads_openHeader hne hspace hname' hblank ?_
    rcases List.append_eq_append_iff.mp hinner with ⟨v, rfl, hclose⟩ | ⟨v, rfl, -⟩
    · -- The keyword does not begin with what closes the bracket or comes behind it.
      rcases v with _ | ⟨c, _ | ⟨d, v⟩⟩
      · rwa [List.append_nil]
      · exact absurd (List.cons.inj (List.cons.inj hclose).2).1 (by decide)
      · rw [List.length_append, List.length_cons, List.length_cons] at hshort
        omega
    · exact fun hmem => hinside (List.mem_append_left _ hmem)

/-- **An earlier header does not reach into a function**, if it has not got into type parameters before
it. -/
theorem not_over_of_functionHeader {t : List Char} (hname : IsWord name) {captured : List (List Char)}
    (h : functionHeader.Reads t captured) (hlead : lead ≠ []) (hopen : ¬openHeader.Reads lead [])
    (heq : lead ++ (("func".toList ++ ' ' :: (name ++ ['('])) ++ rest) = t ++ rest') :
    ¬lead.length < t.length := by
  intro hlong
  obtain ⟨space, name', blank, types, rfl, -, hne, hspace, hname', hblank, htypes⟩ :=
    reads_functionHeader h
  simp only [List.length_append, List.length_cons, List.length_nil] at hlong
  rcases htypes with rfl | ⟨inside, hinside, rfl⟩
  · have hcut : lead ++ (("func".toList ++ ' ' :: (name ++ ['('])) ++ rest) =
        "func".toList ++ space ++ name' ++ blank ++ '(' :: rest' := by
      rw [heq]
      simp only [List.append_assoc, List.cons_append, List.nil_append]
    refine not_over_without_types hname hlead hne hspace hname' hblank hcut ?_
    simp only [List.length_append, List.length_nil] at hlong ⊢
    omega
  · have hcut : lead ++ ("func".toList ++ [' '] ++ name ++ '(' :: rest) =
        "func".toList ++ space ++ name' ++ blank ++ '[' :: (inside ++ ']' :: '(' :: rest') := by
      simpa only [List.append_assoc, List.cons_append, List.nil_append] using heq
    refine hopen (reads_openHeader_of_over hname hne hspace hname' hblank hinside hcut ?_)
    simp only [List.length_append, List.length_cons, List.length_nil] at hlong ⊢
    omega

end

/-- No header of a function that begins a line has got into type parameters where the text ends. -/
def NoneOpen (before : List Char) : Prop :=
  ∀ earlier lead, before = earlier ++ lead → earlier.getLast?.all (· == '\n') = true →
    ¬openHeader.Reads lead []

/-- **The header of a function is found where it stands**, if no other one has got into type parameters
there. -/
theorem exists_mem_findAll_function {before name : List Char}
    (hline : before.getLast?.all (· == '\n') = true) (hname : IsWord name) (hopen : NoneOpen before)
    (rest : List Char) :
    ∃ m ∈ functionHeader.findAll (before ++ (("func".toList ++ ' ' :: (name ++ ['('])) ++ rest)),
      m.start = before.length ∧ m.captured = [name] ∧ m.stop.rest = rest ∧
        m.stop.offset = (before ++ ("func".toList ++ ' ' :: (name ++ ['(']))).length ∧
        m.stop.before = some '(' := by
  obtain ⟨stop, hstop, m, hm, rfl | ⟨hbefore, hbehind⟩⟩ :=
    exists_mem_findAll_of_lineStart (by decide +kernel) hline (reads_function hname) rest
  · obtain ⟨t, hreads, hrest, hoffset, hlast⟩ := exists_reads_of_matchAt hstop
    obtain ⟨rfl, hcaptured, hbehind⟩ := eq_of_functionHeader hname hreads hrest
    refine ⟨_, hm, rfl, hcaptured, hbehind, hoffset, ?_⟩
    rw [hlast, ← List.append_assoc, ← List.cons_append, ← List.append_assoc, List.getLast?_concat]
  · obtain ⟨earlier, tail, hsource, hstart, hmatch⟩ := exists_place_of_mem_findAll hm
    obtain ⟨t, hreads, hrest, hoffset, -⟩ := exists_reads_of_matchAt hmatch
    rw [hstart] at hbefore
    obtain ⟨lead, rfl⟩ : ∃ lead, before = earlier ++ lead :=
      (List.prefix_of_prefix_length_le ⟨_, hsource.symm⟩ ⟨_, rfl⟩ (Nat.le_of_lt hbefore)).imp
        fun _ h => h.symm
    rw [List.append_assoc, List.append_cancel_left_eq, hrest] at hsource
    have hearlier : earlier.getLast?.all (· == '\n') = true := by
      rw [← atLineStart_after]
      exact atLineStart_of_runWith (by decide +kernel) hmatch
    rw [hoffset, List.length_append, List.length_append] at hbehind
    refine absurd (Nat.lt_of_add_lt_add_left hbehind)
      (not_over_of_functionHeader hname hreads ?_ (hopen earlier lead rfl hearlier) hsource)
    rintro rfl
    simp at hbefore

/-- The header of a method does not begin where that of a function does. -/
theorem start_ne_of_methodHeader {before name rest : List Char} (hname : IsWord name) {m : Match}
    (hm : m ∈ methodHeader.findAll (before ++ (("func".toList ++ ' ' :: (name ++ ['('])) ++ rest))) :
    m.start ≠ before.length := by
  intro hstart
  obtain ⟨earlier, t, hreads, hsource, hplace, -⟩ := exists_reads_of_mem_findAll hm
  obtain ⟨rfl, hheader⟩ := List.append_inj hsource (hstart.symm.trans hplace)
  have hstarts : (Pattern.lineStart ++ text "func" ++ gap ++ text "(").Starts t := by
    iterate 13 apply Starts.of_append
    exact ⟨t, _, [], hreads, (List.append_nil t).symm⟩
  obtain ⟨_, _, tail, h₃, rfl⟩ := hstarts
  obtain ⟨t₂, opening, _, _, rfl, -, h₂, hopening⟩ := reads_append.mp h₃
  obtain ⟨t₁, space, _, _, rfl, -, h₁, hspace⟩ := reads_append.mp h₂
  obtain ⟨start, keyword, _, _, rfl, -, hlineStart, hkeyword⟩ := reads_append.mp h₁
  obtain ⟨rfl, -⟩ := reads_lineStart.mp hlineStart
  obtain ⟨rfl, -⟩ := reads_text.mp hkeyword
  obtain ⟨rfl, -⟩ := reads_text.mp hopening
  obtain ⟨-, hspaces, -⟩ := reads_gap.mp hspace
  have hcut : [' '] ++ (name ++ ('(' :: rest)) = space ++ ("(".toList ++ (tail ++ m.stop.rest)) := by
    have hopened : "func".toList ++ ([' '] ++ (name ++ ('(' :: rest))) =
        "func".toList ++ (space ++ ("(".toList ++ (tail ++ m.stop.rest))) := by
      simpa only [List.nil_append, List.append_assoc, List.cons_append] using hheader
    exact List.append_cancel_left hopened
  obtain ⟨-, hnames⟩ := append_inj_of_class (p := isBlank) (by simp; decide) hspaces
    (isBlank_of_beginsWord (beginsWord_append hname _)) (by rintro c ⟨⟩; decide) hcut
  obtain ⟨c, more, hword, hc⟩ := beginsWord_append hname ('(' :: rest)
  rw [hnames] at hword
  rw [← (List.cons.inj hword).1] at hc
  exact absurd hc (by decide)

end GoSource

end Vicinity
