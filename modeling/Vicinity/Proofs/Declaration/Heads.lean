import Vicinity.Declaration
import Vicinity.Proofs.Language.Bindings
import Vicinity.Proofs.Text.Searching
import Vicinity.Source.Script

/-!
# The heads of types

The head of a type, which is its header up to the name, is made of words: modifiers, a keyword and the
name. Headers of scripts know other modifiers than the lines at which a declaration is looked for, and the
word `const` before an enumeration is one that only the headers know.

## What is proved

* `IsHead.exists_leads`: the words of a head.
* `starts_declarationLine_iff`: the words at the beginning of a line that declares a type.
* `matchesStart_declarationLine_of_head`: a line that begins with a head declares a type, except for a
  constant enumeration.
* `declaredName?_of_leads`: the name that is found in a text that begins with a head.
-/

namespace Vicinity

open Text Text.Pattern

/-! ### Several fixed texts -/

theorem reads_anyOf {words : List String} {s : List Char} {a : List (List Char)} :
    (anyOf words).Reads s a ↔ s ∈ words.map String.toList ∧ a = [] := by
  induction words with
  | nil =>
    constructor
    · intro h
      cases h with
      | one hc => cases hc
    · rintro ⟨hmem, -⟩
      cases hmem
  | cons word words ih =>
    cases words with
    | nil => rw [anyOf, reads_text, List.map_singleton, List.mem_singleton]
    | cons next more =>
      show (Pattern.either (text word) (anyOf (next :: more))).Reads s a ↔ _
      rw [reads_either, reads_text, ih, ← or_and_right, List.map_cons (l := next :: more),
        List.mem_cons]

/-- Repeated keywords with their gaps. -/
theorem reads_many_words {p : Pattern} {keywords : List (List Char)}
    (hp : ∀ s a, p.Reads s a ↔ s ∈ keywords ∧ a = []) (hkeywords : ∀ w ∈ keywords, IsWord w)
    {s : List Char} {a : List (List Char)} : (many (p ++ gap)).Reads s a ↔
      (∃ words, (∀ w ∈ words, w ∈ keywords) ∧ Leads (· = []) words s) ∧ a = [] := by
  constructor
  · intro h
    generalize hmany : many (p ++ gap) = pattern at h
    induction h with
    | none => exact ⟨⟨[], by simp, .here rfl⟩, rfl⟩
    | @more q s t a b hone hmore _ ih =>
      cases hmany
      obtain ⟨⟨words, hwords, hleads⟩, rfl⟩ := ih rfl
      obtain ⟨w, hw, hword⟩ := leads_of_keyword _ (fun s a h => ((hp s a).mp h).1) hkeywords hone
      obtain ⟨_, _, _, _, rfl, rfl, hw', hg⟩ := reads_append.mp hone
      obtain ⟨-, rfl⟩ := (hp _ _).mp hw'
      obtain ⟨-, -, rfl⟩ := reads_gap.mp hg
      exact ⟨⟨w :: words, List.forall_mem_cons.mpr ⟨hw, hwords⟩, hword.append hleads⟩, rfl⟩
    | _ => cases hmany
  · rintro ⟨⟨words, hwords, hleads⟩, rfl⟩
    induction hleads with
    | here hs =>
      subst hs
      exact .none _
    | @word w g s words hword hne hblank _ ih =>
      obtain ⟨hw, hwords⟩ := List.forall_mem_cons.mp hwords
      have hone : (p ++ gap).Reads (w ++ g) [] :=
        .both ((hp w []).mpr ⟨hw, rfl⟩) (reads_gap.mpr ⟨hne, hblank, rfl⟩)
      rw [← List.append_assoc]
      exact .more hone (ih hwords)

/-! ### Keywords and modifiers -/

/-- The words after which the name of a type comes. -/
def typeKeywords : List (List Char) := ["interface", "type", "class", "enum"].map String.toList

/-- The modifiers that a line which declares a type may begin with. -/
def lineModifiers : List (List Char) :=
  ["export", "default", "declare", "abstract", "public", "private", "protected", "static"].map
    String.toList

/-- The word before a constant enumeration. -/
def constWord : List Char := "const".toList

theorem isWord_of_all {w : List Char} (hne : w ≠ []) (hchars : w.all isWordChar = true) : IsWord w :=
  ⟨hne, List.all_eq_true.mp hchars⟩

theorem isWord_of_mem_typeKeywords {w : List Char} (h : w ∈ typeKeywords) : IsWord w := by
  have hall : ∀ w ∈ typeKeywords, w ≠ [] ∧ w.all isWordChar = true := by decide
  exact isWord_of_all (hall w h).1 (hall w h).2

theorem isWord_of_mem_lineModifiers {w : List Char} (h : w ∈ lineModifiers) : IsWord w := by
  have hall : ∀ w ∈ lineModifiers, w ≠ [] ∧ w.all isWordChar = true := by decide
  exact isWord_of_all (hall w h).1 (hall w h).2

theorem isWord_constWord : IsWord constWord := isWord_of_all (by decide) (by decide)

theorem constWord_not_mem_lineModifiers : constWord ∉ lineModifiers := by decide

theorem not_mem_typeKeywords_of_lineModifier {w : List Char} (h : w ∈ lineModifiers) :
    w ∉ typeKeywords := by
  have hall : ∀ w ∈ lineModifiers, w ∉ typeKeywords := by decide
  exact hall w h

theorem not_mem_typeKeywords_of_const {words : List (List Char)}
    (h : ∀ w ∈ words, w ∈ lineModifiers) : ∀ w ∈ words ++ [constWord], w ∉ typeKeywords := by
  intro w hw
  rcases List.mem_append.mp hw with hw | hw
  · exact not_mem_typeKeywords_of_lineModifier (h w hw)
  · rw [List.mem_singleton.mp hw]
    decide

/-- Words up to the first type keyword are the same in two readings of a text. -/
theorem words_unique {words words' : List (List Char)} {keyword keyword' s : List Char}
    (h : Leads BeginsWord (words ++ [keyword]) s) (h' : Leads BeginsWord (words' ++ [keyword']) s)
    (hkeyword : keyword ∈ typeKeywords) (hkeyword' : keyword' ∈ typeKeywords)
    (hwords : ∀ w ∈ words, w ∉ typeKeywords) (hwords' : ∀ w ∈ words', w ∉ typeKeywords) :
    words = words' ∧ keyword = keyword' := by
  -- The keyword of the shorter reading is among the words of the longer one, and so is its keyword.
  have hsame : ∀ {words words' : List (List Char)} {keyword keyword' : List Char},
      words ++ [keyword] <+: words' ++ [keyword'] → keyword ∈ typeKeywords →
      (∀ w ∈ words', w ∉ typeKeywords) → words = words' ∧ keyword = keyword' := by
    intro words words' keyword keyword' hbegins hkeyword hwords'
    rcases List.prefix_concat_iff.mp hbegins with heq | hshort
    · obtain ⟨hwords, hlast⟩ := List.append_inj' heq rfl
      exact ⟨hwords, List.singleton_inj.mp hlast⟩
    · exact absurd hkeyword (hwords' keyword (hshort.subset (by simp)))
  rcases h.comparable h' with hbegins | hbegins
  · exact hsame hbegins hkeyword hwords'
  · obtain ⟨rfl, rfl⟩ := hsame hbegins hkeyword' hwords
    exact ⟨rfl, rfl⟩

/-! ### Lines that declare a type -/

/-- **The words at the beginning of a line that declares a type.** -/
theorem starts_declarationLine_iff {line : List Char} : declarationLine.Starts line ↔
    ∃ blank words keyword t, line = blank ++ t ∧ (∀ c ∈ blank, isBlank c = true) ∧
      (∀ w ∈ words, w ∈ lineModifiers) ∧ keyword ∈ typeKeywords ∧
      Leads BeginsWord (words ++ [keyword]) t := by
  constructor
  · rintro ⟨t, a, tail, hreads, rfl⟩
    obtain ⟨t₄, name, _, _, rfl, -, h₄, hname⟩ := reads_append.mp hreads
    obtain ⟨t₃, spaces, _, _, rfl, -, h₃, hspaces⟩ := reads_append.mp h₄
    obtain ⟨t₂, keyword, _, _, rfl, -, h₂, hkeyword⟩ := reads_append.mp h₃
    obtain ⟨blank, front, _, _, rfl, -, hblank, hfront⟩ := reads_append.mp h₂
    obtain ⟨⟨words, hwords, hleads⟩, -⟩ :=
      (reads_many_words (fun _ _ => reads_anyOf) fun w => isWord_of_mem_lineModifiers).mp hfront
    obtain ⟨hkeyword, -⟩ := reads_anyOf.mp hkeyword
    obtain ⟨hne, hspaces, -⟩ := reads_gap.mp hspaces
    have hlast : Leads BeginsWord [keyword] (keyword ++ (spaces ++ (name ++ tail))) :=
      .word (isWord_of_mem_typeKeywords hkeyword) hne hspaces
        (.here (beginsWord_append (reads_word.mp hname).1 _))
    refine ⟨blank, words, keyword, _, ?_, (reads_blanks.mp hblank).1, hwords, hkeyword,
      hleads.append hlast⟩
    simp only [List.append_assoc]
  · rintro ⟨blank, words, keyword, t, rfl, hblank, hwords, hkeyword, hleads⟩
    obtain ⟨front, u, rfl, hfront, hrest⟩ := hleads.exists_append
    have hfront := (reads_many_words (fun _ _ => reads_anyOf)
      fun w => isWord_of_mem_lineModifiers).mpr ⟨⟨words, hwords, hfront⟩, rfl⟩
    cases hrest with
    | @word _ spaces t _ _ hne hspaces hrest =>
      cases hrest with
      | here hbegins =>
        obtain ⟨name, tail, rfl, hname⟩ := hbegins.exists_word
        have hreads := Reads.both (.both (.both (.both (reads_blanks.mpr ⟨hblank, rfl⟩) hfront)
          (reads_anyOf.mpr ⟨hkeyword, rfl⟩)) (reads_gap.mpr ⟨hne, hspaces, rfl⟩))
          (reads_word.mpr ⟨hname, rfl⟩)
        refine ⟨_, _, tail, hreads, ?_⟩
        simp only [List.append_assoc]

theorem isPlain_declarationLine : declarationLine.isPlain = true := by decide +kernel

/-- A line that declares a type begins with one of the words that may stand there. -/
theorem matchesStart_declarationLine_iff {line : List Char} :
    declarationLine.matchesStart line = true ↔ declarationLine.Starts line :=
  matchesStart_iff isPlain_declarationLine

namespace Script

/-! ### Heads -/

/-- The header of a type alias, up to its name. -/
def aliasHead : Pattern := .lineStart ++ Binding.exported ++ text "type" ++ gap ++ .capture word

/-- The header of a constant enumeration, up to its name. -/
def constEnumHead : Pattern :=
  exported ++ opt (text "declare" ++ gap) ++ (text "const" ++ gap) ++ text "enum" ++ gap ++
    .capture word

/-- The headers of types, up to their names. -/
def typeHeads : List Pattern := [classHeader, interfaceHeader, enumHeader, aliasHead]

/-- The header of a type up to its name, with the name. -/
def IsHead (front name : List Char) : Prop := ∃ head ∈ typeHeads, head.Reads front [name]

/-- The words of a head: modifiers and a keyword, after which the name comes. -/
structure HeadWords (front name : List Char) (words : List (List Char)) (keyword : List Char) :
    Prop where
  isWord : IsWord name
  keyword_mem : keyword ∈ typeKeywords
  leads : ∀ rest, Leads (· = name ++ rest) (words ++ [keyword]) (front ++ rest)

variable {front name : List Char}

/-- A text that is made of modifiers of a line. -/
def IsModifiers (s : List Char) : Prop :=
  ∃ words, (∀ w ∈ words, w ∈ lineModifiers) ∧ Leads (· = []) words s

theorem IsModifiers.nil : IsModifiers [] := ⟨[], by simp, .here rfl⟩

theorem IsModifiers.append {s t : List Char} (hs : IsModifiers s) (ht : IsModifiers t) :
    IsModifiers (s ++ t) := by
  obtain ⟨words, hwords, hleads⟩ := hs
  obtain ⟨words', hwords', hleads'⟩ := ht
  exact ⟨words ++ words', List.forall_mem_append.mpr ⟨hwords, hwords'⟩, hleads.append hleads'⟩

theorem isModifiers_of_keyword {keyword : String} (hkeyword : keyword.toList ∈ lineModifiers)
    {s : List Char} {a : List (List Char)} (h : (text keyword ++ gap).Reads s a) : IsModifiers s := by
  obtain ⟨w, hw, hleads⟩ := leads_of_keyword _ (fun s a hs => (reads_text.mp hs).1 ▸ hkeyword)
    (fun w => isWord_of_mem_lineModifiers) h
  exact ⟨[w], by simpa using hw, hleads⟩

theorem isModifiers_of_opt {keyword : String} (hkeyword : keyword.toList ∈ lineModifiers)
    {s : List Char} {a : List (List Char)} (h : (opt (text keyword ++ gap)).Reads s a) :
    IsModifiers s := by
  rcases reads_opt.mp h with h | ⟨rfl, -⟩
  · exact isModifiers_of_keyword hkeyword h
  · exact .nil

theorem isModifiers_of_exported {s : List Char} {a : List (List Char)} (h : exported.Reads s a) :
    IsModifiers s := by
  obtain ⟨start, front, _, _, rfl, -, hstart, hfront⟩ := reads_append.mp h
  obtain ⟨rfl, -⟩ := reads_lineStart.mp hstart
  rcases reads_opt.mp hfront with hexport | ⟨rfl, -⟩
  · obtain ⟨t, u, _, _, rfl, -, ht, hu⟩ := reads_append.mp hexport
    exact (isModifiers_of_keyword (by decide) ht).append (isModifiers_of_opt (by decide) hu)
  · exact .nil

/-- What stands before an enumeration but for the word `const` is made of modifiers. -/
theorem isModifiers_of_enum {s : List Char} {a : List (List Char)}
    (h : (exported ++ opt (text "declare" ++ gap)).Reads s a) : IsModifiers s := by
  obtain ⟨t, u, _, _, rfl, -, ht, hu⟩ := reads_append.mp h
  exact (isModifiers_of_exported ht).append (isModifiers_of_opt (by decide) hu)

/-- A head is made of modifiers, a keyword and the name. -/
theorem headWords_of_reads {modifiers : Pattern} {keyword : String}
    (hkeyword : keyword.toList ∈ typeKeywords) {property : List (List Char) → Prop}
    (hmodifiers : ∀ s a, modifiers.Reads s a → ∃ words, property words ∧ Leads (· = []) words s)
    (h : (modifiers ++ text keyword ++ gap ++ .capture word).Reads front [name]) :
    ∃ words, property words ∧ HeadWords front name words keyword.toList := by
  obtain ⟨t₃, name', _, _, rfl, hcaptured, h₃, hname⟩ := reads_append.mp h
  obtain ⟨t₂, spaces, _, _, rfl, -, h₂, hspaces⟩ := reads_append.mp h₃
  obtain ⟨t₁, keyword', _, _, rfl, -, h₁, hword⟩ := reads_append.mp h₂
  obtain ⟨words, hwords, hleads⟩ := hmodifiers _ _ h₁
  obtain ⟨rfl, -⟩ := reads_text.mp hword
  obtain ⟨hne, hspaces, -⟩ := reads_gap.mp hspaces
  obtain ⟨_, hread, rfl⟩ := reads_capture.mp hname
  obtain rfl : name = name' := by
    have hlast := congrArg List.getLast? hcaptured
    simpa using hlast
  refine ⟨words, hwords, (reads_word.mp hread).1, hkeyword, fun rest => ?_⟩
  simp only [List.append_assoc]
  exact hleads.append (.word (isWord_of_mem_typeKeywords hkeyword) hne hspaces (.here rfl))

/-- The words of the head of a constant enumeration. -/
theorem exists_words_of_constEnumHead (h : constEnumHead.Reads front [name]) :
    ∃ words, (∀ w ∈ words, w ∈ lineModifiers) ∧
      HeadWords front name (words ++ [constWord]) "enum".toList := by
  have hmodifiers : ∀ s a, (exported ++ opt (text "declare" ++ gap) ++ (text "const" ++ gap)).Reads s a →
      ∃ all, (∃ words, all = words ++ [constWord] ∧ ∀ w ∈ words, w ∈ lineModifiers) ∧
        Leads (· = []) all s := by
    intro s a hs
    obtain ⟨t, u, _, _, rfl, -, ht, hu⟩ := reads_append.mp hs
    obtain ⟨words, hwords, hleads⟩ := isModifiers_of_enum ht
    obtain ⟨w, hw, hword⟩ := leads_of_keyword [constWord]
      (fun s a hs => List.mem_singleton.mpr (reads_text.mp hs).1)
      (fun w hw => List.mem_singleton.mp hw ▸ isWord_constWord) hu
    rw [List.mem_singleton.mp hw] at hword
    exact ⟨words ++ [constWord], ⟨words, rfl, hwords⟩, hleads.append hword⟩
  obtain ⟨_, ⟨words, rfl, hwords⟩, hhead⟩ := headWords_of_reads (by decide) hmodifiers h
  exact ⟨words, hwords, hhead⟩

/-- **The words of a head**, all of which may also stand at the beginning of a line that declares a type,
unless it is that of a constant enumeration. -/
theorem IsHead.exists_words (h : IsHead front name) :
    (∃ words keyword, (∀ w ∈ words, w ∈ lineModifiers) ∧ HeadWords front name words keyword) ∨
      constEnumHead.Reads front [name] := by
  obtain ⟨head, hmem, hreads⟩ := h
  simp only [typeHeads, List.mem_cons, List.not_mem_nil, or_false] at hmem
  rcases hmem with rfl | rfl | rfl | rfl
  · obtain ⟨words, hhead⟩ := headWords_of_reads (by decide) (fun _ _ hs => by
      obtain ⟨t, u, _, _, rfl, -, ht, hu⟩ := reads_append.mp hs
      exact (isModifiers_of_exported ht).append (isModifiers_of_opt (by decide) hu)) hreads
    exact .inl ⟨words, _, hhead⟩
  · obtain ⟨words, hhead⟩ :=
      headWords_of_reads (by decide) (fun _ _ => isModifiers_of_exported) hreads
    exact .inl ⟨words, _, hhead⟩
  · obtain ⟨t₃, u₃, _, _, rfl, hcaptured, h₃, hname⟩ := reads_append.mp hreads
    obtain ⟨t₂, u₂, _, _, rfl, rfl, h₂, hspaces⟩ := reads_append.mp h₃
    obtain ⟨t₁, u₁, _, _, rfl, rfl, h₁, hword⟩ := reads_append.mp h₂
    obtain ⟨t, u, _, _, rfl, rfl, hmodifiers, hconst⟩ := reads_append.mp h₁
    rcases reads_opt.mp hconst with hconst | ⟨rfl, rfl⟩
    · right
      rw [hcaptured]
      exact .both (.both (.both (.both hmodifiers hconst) hword) hspaces) hname
    · rw [List.append_nil] at hcaptured ⊢
      have hplain := Reads.both (.both (.both hmodifiers hword) hspaces) hname
      rw [← hcaptured] at hplain
      obtain ⟨words, hhead⟩ :=
        headWords_of_reads (by decide) (fun _ _ => isModifiers_of_enum) hplain
      exact .inl ⟨words, _, hhead⟩
  · obtain ⟨words, hhead⟩ := headWords_of_reads (by decide) (fun _ _ hs => by
      obtain ⟨start, front, _, _, rfl, -, hstart, hfront⟩ := reads_append.mp hs
      obtain ⟨rfl, -⟩ := reads_lineStart.mp hstart
      exact isModifiers_of_opt (by decide) hfront) hreads
    exact .inl ⟨words, _, hhead⟩

/-- A text that begins with a head begins with its words. -/
theorem HeadWords.beginsWord {words : List (List Char)} {keyword : List Char}
    (h : HeadWords front name words keyword) (rest : List Char) :
    Leads BeginsWord (words ++ [keyword]) (front ++ rest) :=
  (h.leads rest).imp fun _ heq => heq ▸ beginsWord_append h.isWord rest

/-- **A line that begins with a head declares a type**, except for a constant enumeration. -/
theorem matchesStart_declarationLine_of_head (h : IsHead front name) (rest : List Char) :
    declarationLine.matchesStart (front ++ rest) = true ↔ ¬constEnumHead.Reads front [name] := by
  rw [matchesStart_declarationLine_iff, starts_declarationLine_iff]
  constructor
  · rintro ⟨blank, words, keyword, t, heq, hblank, hwords, hkeyword, hleads⟩ hconst
    obtain ⟨words', hwords', hhead⟩ := exists_words_of_constEnumHead hconst
    obtain ⟨-, rfl⟩ := append_inj_of_class (s := []) (by simp) hblank
      (isBlank_of_beginsWord ((hhead.beginsWord rest).beginsWord fun _ h => h))
      (isBlank_of_beginsWord (hleads.beginsWord fun _ h => h)) heq
    obtain ⟨rfl, -⟩ := words_unique hleads (hhead.beginsWord rest) hkeyword hhead.keyword_mem
      (fun w hw => not_mem_typeKeywords_of_lineModifier (hwords w hw))
      (not_mem_typeKeywords_of_const hwords')
    exact constWord_not_mem_lineModifiers (hwords constWord (by simp))
  · intro hplain
    obtain ⟨words, keyword, hwords, hhead⟩ := h.exists_words.resolve_right hplain
    exact ⟨[], words, keyword, _, rfl, by simp, hwords, hhead.keyword_mem, hhead.beginsWord rest⟩

/-- Every head has words, of which only the last is a type keyword. -/
theorem IsHead.exists_headWords (h : IsHead front name) : ∃ words keyword,
    HeadWords front name words keyword ∧ ∀ w ∈ words, w ∉ typeKeywords := by
  rcases h.exists_words with ⟨words, keyword, hwords, hhead⟩ | hconst
  · exact ⟨words, keyword, hhead, fun w hw => not_mem_typeKeywords_of_lineModifier (hwords w hw)⟩
  · obtain ⟨words, hwords, hhead⟩ := exists_words_of_constEnumHead hconst
    exact ⟨_, _, hhead, not_mem_typeKeywords_of_const hwords⟩

end Script

/-! ### The first word -/

/-- The first word of a text that begins with some words. -/
theorem firstWord_of_leads {w : List Char} {words : List (List Char)} {s : List Char}
    (h : Leads BeginsWord (w :: words) s) : firstWord s = w := by
  cases h with
  | @word _ spaces s _ hword hne hspaces hrest =>
    obtain ⟨c, more, rfl⟩ := List.exists_cons_of_ne_nil hword.ne_nil
    obtain ⟨b, after, rfl⟩ := List.exists_cons_of_ne_nil hne
    have hplain : ∀ d ∈ c :: more, isBlank d = false := by
      intro d hd
      cases hblank : isBlank d with
      | false => rfl
      | true =>
        have hchar := hword.isWordChar d hd
        rw [isWordChar_of_isBlank hblank] at hchar
        cases hchar
    have hb : isBlank b = true := hspaces b List.mem_cons_self
    rw [firstWord, List.cons_append, trimStart_cons_of_not_blank _ (hplain c List.mem_cons_self),
      ← List.cons_append, List.takeWhile_append_of_pos (by simpa using hplain)]
    simp [hb]

/-- No word that may stand before the name of a type belongs to the head of a file. -/
theorem not_marker_of_mem {w : List Char}
    (h : w ∈ lineModifiers ∨ w = constWord ∨ w ∈ typeKeywords) :
    headerMarkers.contains (String.ofList w) = false := by
  have hall : ∀ w ∈ lineModifiers ++ constWord :: typeKeywords,
      headerMarkers.contains (String.ofList w) = false := by decide +kernel
  refine hall w (List.mem_append.mpr (h.imp_right fun h => List.mem_cons.mpr h))

/-- A text that begins with such words is not blank and does not belong to the head of a file. -/
theorem plain_of_leads {blank : List Char} {words : List (List Char)} {keyword s : List Char}
    (hblank : ∀ c ∈ blank, isBlank c = true) (hwords : ∀ w ∈ words, w ∈ lineModifiers ∨ w = constWord)
    (hkeyword : keyword ∈ typeKeywords) (h : Leads BeginsWord (words ++ [keyword]) s) :
    allBlank (blank ++ s) = false ∧
      headerMarkers.contains (String.ofList (firstWord (blank ++ s))) = false := by
  induction blank with
  | nil =>
    constructor
    · obtain ⟨c, rest, rfl, hc⟩ := h.beginsWord fun _ h => h
      have hplain := isBlank_of_beginsWord ⟨c, rest, rfl, hc⟩ c rfl
      simp [allBlank, hplain]
    · rw [List.nil_append]
      cases words with
      | nil =>
        rw [firstWord_of_leads h]
        exact not_marker_of_mem (.inr (.inr hkeyword))
      | cons w words =>
        rw [firstWord_of_leads h]
        exact not_marker_of_mem ((hwords w List.mem_cons_self).imp_right .inl)
  | cons b blank ih =>
    obtain ⟨hb, hblank⟩ := List.forall_mem_cons.mp hblank
    rw [List.cons_append, firstWord_cons_of_blank hb]
    refine ⟨?_, (ih hblank).2⟩
    simpa [allBlank, hb] using (ih hblank).1

theorem plain_of_declarationLine {line : List Char} (h : declarationLine.Starts line) :
    allBlank line = false ∧ headerMarkers.contains (String.ofList (firstWord line)) = false := by
  obtain ⟨blank, words, keyword, t, rfl, hblank, hwords, hkeyword, hleads⟩ :=
    starts_declarationLine_iff.mp h
  exact plain_of_leads hblank (fun w hw => .inl (hwords w hw)) hkeyword hleads

namespace Script

variable {front name : List Char}

theorem IsHead.plain (h : IsHead front name) (rest : List Char) : allBlank (front ++ rest) = false ∧
    headerMarkers.contains (String.ofList (firstWord (front ++ rest))) = false := by
  obtain ⟨words, keyword, hwords, hhead⟩ : ∃ words keyword,
      (∀ w ∈ words, w ∈ lineModifiers ∨ w = constWord) ∧ HeadWords front name words keyword := by
    rcases h.exists_words with ⟨words, keyword, hwords, hhead⟩ | hconst
    · exact ⟨words, keyword, fun w hw => .inl (hwords w hw), hhead⟩
    · obtain ⟨words, hwords, hhead⟩ := exists_words_of_constEnumHead hconst
      exact ⟨_, _, fun w hw => (List.mem_append.mp hw).imp (hwords w) List.mem_singleton.mp, hhead⟩
  have hnone : ∀ c ∈ ([] : List Char), isBlank c = true := by simp
  have hplain := plain_of_leads hnone hwords hhead.keyword_mem (hhead.beginsWord rest)
  exact hplain

/-- A head ends with the last character of the name. -/
theorem IsHead.exists_concat (h : IsHead front name) :
    ∃ before c, front = before ++ [c] ∧ isBlank c = false := by
  obtain ⟨words, keyword, hhead, -⟩ := h.exists_headWords
  have hleads := hhead.leads []
  rw [← List.append_nil (words ++ [keyword])] at hleads
  obtain ⟨t, u, hfront, -, hu⟩ := hleads.exists_append
  cases hu with
  | here hu =>
    subst hu
    obtain ⟨before, c, hname⟩ := (List.eq_nil_or_concat name).resolve_left hhead.isWord.ne_nil
    have hc : isWordChar c = true := hhead.isWord.isWordChar c (by rw [hname]; simp)
    refine ⟨t ++ before, c, ?_, ?_⟩
    · rw [List.append_nil, List.append_nil] at hfront
      rw [hfront, hname]
      simp
    · exact isBlank_of_beginsWord ⟨c, [], rfl, hc⟩ c rfl

/-- A text has one head only with a given name. -/
theorem IsHead.unique {front' rest rest' : List Char} (h : IsHead front name)
    (h' : IsHead front' name) (heq : front ++ rest = front' ++ rest') :
    front = front' ∧ rest = rest' := by
  obtain ⟨words, keyword, hhead, hwords⟩ := h.exists_headWords
  obtain ⟨words', keyword', hhead', hwords'⟩ := h'.exists_headWords
  have hleads := hhead'.leads rest'
  rw [← heq] at hleads
  have hbegins : ∀ (u : List Char) t, t = name ++ u → BeginsWord t := by
    rintro u _ rfl
    exact beginsWord_append hhead.isWord u
  obtain ⟨rfl, rfl⟩ := words_unique (hhead.beginsWord rest) (hleads.imp (hbegins rest'))
    hhead.keyword_mem hhead'.keyword_mem hwords hwords'
  obtain ⟨_, ht, ht'⟩ := ((hhead.leads rest).and (hbegins rest) (hbegins rest') hleads).exists_goal
  have hrest : rest = rest' := List.append_cancel_left (ht.symm.trans ht')
  subst hrest
  exact ⟨List.append_cancel_right heq, rfl⟩

end Script

/-! ### The declared name -/

/-- A match of a declared name stands at the edge of a word, and reads a type keyword and the whole of the
next word. -/
theorem leads_of_declaredName {before rest : List Char} {stop : Cursor}
    (h : declaredNamePattern.matchAt (.after before rest) = some stop) :
    (Cursor.after before rest).atWordEdge = true ∧ ∃ keyword ∈ typeKeywords, ∃ name,
      stop.captured = [name] ∧ IsWord name ∧ (∀ c ∈ stop.rest.head?, isWordChar c = false) ∧
      Leads (· = name ++ stop.rest) [keyword] rest := by
  constructor
  · by_contra hedge
    have hnone : declaredNamePattern.matchAt (.after before rest) = none := if_neg hedge
    rw [hnone] at h
    cases h
  · obtain ⟨s, hreads, hrest, -⟩ := exists_reads_of_matchAt h
    obtain ⟨t₂, name, _, _, rfl, hcaptured, h₂, hname⟩ := reads_append.mp hreads
    obtain ⟨t₁, spaces, _, _, rfl, rfl, h₁, hspaces⟩ := reads_append.mp h₂
    obtain ⟨edge, keyword, _, _, rfl, rfl, hedge, hkeyword⟩ := reads_append.mp h₁
    cases hedge
    obtain ⟨hone, rfl⟩ := reads_anyOf.mp hkeyword
    obtain ⟨hne, hblank, rfl⟩ := reads_gap.mp hspaces
    obtain ⟨_, hcapture, rfl⟩ := reads_capture.mp hname
    obtain ⟨hword, rfl⟩ := reads_word.mp hcapture
    have hall : ∀ w ∈ ["interface", "class", "type", "enum"].map String.toList, w ∈ typeKeywords := by
      decide
    have hmem := hall keyword hone
    refine ⟨keyword, hmem, name, by simpa using hcaptured, hword, rest_of_matchAt_run h, ?_⟩
    rw [hrest]
    simp only [List.nil_append, List.append_assoc]
    exact .word (isWord_of_mem_typeKeywords hmem) hne hblank (.here rfl)

/-- A type keyword with a name after it is matched. -/
theorem isSome_matchAt_declaredName {before keyword spaces name rest : List Char}
    (hbefore : ∀ c ∈ before.getLast?, isWordChar c = false) (hkeyword : keyword ∈ typeKeywords)
    (hne : spaces ≠ []) (hspaces : ∀ c ∈ spaces, isBlank c = true) (hname : IsWord name) :
    (declaredNamePattern.matchAt (.after before (keyword ++ (spaces ++ (name ++ rest))))).isSome := by
  have hedge : (Cursor.after before (keyword ++ (spaces ++ (name ++ rest)))).atWordEdge = true := by
    obtain ⟨c, more, heq, hc⟩ :=
      beginsWord_append (isWord_of_mem_typeKeywords hkeyword) (spaces ++ (name ++ rest))
    unfold Cursor.atWordEdge Cursor.after
    rw [heq]
    cases hlast : before.getLast? with
    | none => simp [hc]
    | some d => simp [hc, hbefore d hlast]
  have hfirst : declaredNamePattern.matchAt (.after before (keyword ++ (spaces ++ (name ++ rest)))) =
      (anyOf ["interface", "class", "type", "enum"] ++ gap ++ .capture word).matchAt
        (.after before (keyword ++ (spaces ++ (name ++ rest)))) := if_pos hedge
  have hall : ∀ w ∈ typeKeywords, w ∈ ["interface", "class", "type", "enum"].map String.toList := by
    decide
  have hreads := Reads.both (.both (reads_anyOf.mpr ⟨hall keyword hkeyword, rfl⟩)
    (reads_gap.mpr ⟨hne, hspaces, rfl⟩)) (reads_capture.mpr ⟨[], reads_word.mpr ⟨hname, rfl⟩, rfl⟩)
  have hcut : keyword ++ (spaces ++ (name ++ rest)) = keyword ++ spaces ++ name ++ rest := by
    simp only [List.append_assoc]
  rw [hfirst]
  exact isSome_runWith (by decide +kernel) hreads hcut fun next _ => rfl

/-- What a declared name is matched in begins with a word. -/
theorem beginsWord_of_declaredName {before rest : List Char} {stop : Cursor}
    (h : declaredNamePattern.matchAt (.after before rest) = some stop) :
    ∃ keyword ∈ typeKeywords, Leads BeginsWord [keyword] rest := by
  obtain ⟨-, keyword, hkeyword, name, -, hname, -, hleads⟩ := leads_of_declaredName h
  refine ⟨keyword, hkeyword, hleads.imp ?_⟩
  rintro _ rfl
  exact beginsWord_append hname _

/-- No declared name is matched inside a word. -/
theorem matchAt_declaredName_inside {before rest : List Char} {c : Char} (hc : isWordChar c = true) :
    declaredNamePattern.matchAt (.after (before ++ [c]) rest) = none := by
  rw [Option.eq_none_iff_forall_ne_some]
  intro stop hstop
  obtain ⟨hedge, -⟩ := leads_of_declaredName hstop
  obtain ⟨keyword, -, hleads⟩ := beginsWord_of_declaredName hstop
  obtain ⟨d, more, rfl, hd⟩ := hleads.beginsWord fun _ h => h
  simp [Cursor.atWordEdge, Cursor.after, hc, hd] at hedge

/-- No declared name is matched at a blank. -/
theorem matchAt_declaredName_blank {before rest : List Char} {c : Char} (hc : isBlank c = true) :
    declaredNamePattern.matchAt (.after before (c :: rest)) = none := by
  rw [Option.eq_none_iff_forall_ne_some]
  intro stop hstop
  obtain ⟨keyword, -, hleads⟩ := beginsWord_of_declaredName hstop
  obtain ⟨d, more, heq, hd⟩ := hleads.beginsWord fun _ h => h
  cases heq
  rw [isWordChar_of_isBlank hc] at hd
  cases hd

/-- No declared name is matched at a word that is no type keyword. -/
theorem matchAt_declaredName_word {before rest : List Char} {w : List Char} {words : List (List Char)}
    (h : Leads BeginsWord (w :: words) rest) (hw : w ∉ typeKeywords) :
    declaredNamePattern.matchAt (.after before rest) = none := by
  rw [Option.eq_none_iff_forall_ne_some]
  intro stop hstop
  obtain ⟨keyword, hkeyword, hleads⟩ := beginsWord_of_declaredName hstop
  exact hw (h.first_unique hleads ▸ hkeyword)

/-- The search for a declared name passes over a word that is no type keyword. -/
theorem search_declaredName_word {before w spaces rest : List Char} {words : List (List Char)}
    (hw : IsWord w) (hkeyword : w ∉ typeKeywords) (hne : spaces ≠ [])
    (hspaces : ∀ c ∈ spaces, isBlank c = true) (h : Leads BeginsWord words rest) :
    search.go declaredNamePattern (w ++ (spaces ++ rest)) (.after before (w ++ (spaces ++ rest))) =
      search.go declaredNamePattern rest (.after (before ++ w ++ spaces) rest) := by
  rw [search_go_append, search_go_append]
  · rintro front c back rfl
    exact matchAt_declaredName_blank (hspaces c (by simp))
  · intro front c back hcut
    rcases List.eq_nil_or_concat front with rfl | ⟨front, d, rfl⟩
    · rw [List.append_nil]
      have htext : c :: back ++ (spaces ++ rest) = w ++ (spaces ++ rest) := by rw [hcut]; rfl
      rw [htext]
      exact matchAt_declaredName_word (.word hw hne hspaces h) hkeyword
    · rw [List.concat_eq_append, ← List.append_assoc]
      exact matchAt_declaredName_inside (hw.isWordChar d (by rw [hcut]; simp))

/-- **The name that is found in a text that begins with some words, a type keyword and a name.** -/
theorem search_declaredName_of_leads (before : List Char) {name rest : List Char}
    {words : List (List Char)} {keyword s : List Char} (h : Leads (· = name ++ rest) (words ++ [keyword]) s)
    (hbefore : ∀ c ∈ before.getLast?, isWordChar c = false)
    (hwords : ∀ w ∈ words, w ∉ typeKeywords) (hkeyword : keyword ∈ typeKeywords) (hname : IsWord name)
    (hrest : ∀ c ∈ rest.head?, isWordChar c = false) :
    (search.go declaredNamePattern s (.after before s)).bind (·.captured.head?) = some name := by
  have hgoal : ∀ t, t = name ++ rest → BeginsWord t := by
    rintro _ rfl
    exact beginsWord_append hname rest
  induction words generalizing before s with
  | nil =>
    cases h with
    | @word _ spaces _ _ hword hne hspaces h =>
      cases h with
      | here heq =>
        subst heq
        obtain ⟨stop, hstop⟩ := Option.isSome_iff_exists.mp
          (isSome_matchAt_declaredName hbefore hkeyword hne hspaces hname)
        rw [search_go_of_matchAt hstop]
        obtain ⟨-, keyword', -, name', hcaptured, hname', hrest', hleads'⟩ :=
          leads_of_declaredName hstop
        have hleads : Leads (· = name ++ rest) [keyword] (keyword ++ (spaces ++ (name ++ rest))) :=
          .word hword hne hspaces (.here rfl)
        have hgoal' : ∀ t, t = name' ++ stop.rest → BeginsWord t := by
          rintro _ rfl
          exact beginsWord_append hname' _
        obtain rfl := (hleads.imp hgoal).first_unique (hleads'.imp hgoal')
        obtain ⟨_, heq, heq'⟩ := (hleads.and hgoal hgoal' hleads').exists_goal
        obtain ⟨rfl, -⟩ := append_inj_of_class hname.isWordChar hname'.isWordChar hrest hrest'
          (heq.symm.trans heq')
        simp [Match.captured, hcaptured]
  | cons w words ih =>
    obtain ⟨hw, hwords⟩ := List.forall_mem_cons.mp hwords
    cases h with
    | @word _ spaces s _ hword hne hspaces h =>
      rw [search_declaredName_word hword hw hne hspaces (h.imp hgoal)]
      refine ih _ h ?_ hwords
      intro c hc
      obtain ⟨spaces, d, rfl⟩ := (List.eq_nil_or_concat spaces).resolve_left hne
      rw [List.concat_eq_append, ← List.append_assoc, List.getLast?_concat] at hc
      cases hc
      exact isWordChar_of_isBlank (hspaces c (by simp))

/-- **The name that is declared at the beginning of a text that begins with a head.** -/
theorem declaredName?_of_head {front name : List Char} (h : Script.IsHead front name) {rest : List Char}
    (hrest : ∀ c ∈ rest.head?, isWordChar c = false) : declaredName? (front ++ rest) = some name := by
  obtain ⟨words, keyword, hhead, hwords⟩ := h.exists_headWords
  exact search_declaredName_of_leads [] (hhead.leads rest) (by simp) hwords hhead.keyword_mem
    hhead.isWord hrest

end Vicinity
