import Vicinity.Language.Binding
import Vicinity.Proofs.Text.Matching

/-!
# Telling type aliases from arrow functions

Both headers begin with words that have blanks between them. In that of a type alias the word `type` is
followed by one more word; in that of an arrow function a word that is followed by another is `export`
or one of the words that bind a name. So no text begins with both headers.

## What is proved

* `Leads.comparable`, `Leads.prefix_of_ends`: how far two readings of the same words agree.
* `not_typeAlias_of_arrowFunction`: no text begins with both headers.
-/

namespace Vicinity

open Text Text.Pattern

/-! ### Words and blanks -/

/-- The code points of the blanks. -/
def blankCodes : List Nat :=
  [0x09, 0x0a, 0x0b, 0x0c, 0x0d, 0x1c, 0x1d, 0x1e, 0x1f, 0x20, 0x85, 0xa0, 0x1680, 0x2000, 0x2001,
    0x2002, 0x2003, 0x2004, 0x2005, 0x2006, 0x2007, 0x2008, 0x2009, 0x200a, 0x2028, 0x2029, 0x202f,
    0x205f, 0x3000]

theorem mem_blankCodes {c : Char} (h : isBlank c = true) : c.toNat ∈ blankCodes := by
  simp only [isBlank, Bool.or_eq_true, Bool.and_eq_true, decide_eq_true_eq, beq_iff_eq] at h
  simp only [blankCodes, List.mem_cons, List.not_mem_nil, or_false]
  omega

/-- A blank does not stand inside a word. -/
theorem isWordChar_of_isBlank {c : Char} (h : isBlank c = true) : isWordChar c = false := by
  have hall : ∀ n ∈ blankCodes, isWordChar (Char.ofNat n) = false := by decide +kernel
  rw [← Char.ofNat_toNat c]
  exact hall c.toNat (mem_blankCodes h)

/-- A nonempty run of word characters. -/
structure IsWord (w : List Char) : Prop where
  ne_nil : w ≠ []
  isWordChar : ∀ c ∈ w, isWordChar c = true

/-- A text that begins with a word. -/
def BeginsWord (s : List Char) : Prop := ∃ c rest, s = c :: rest ∧ isWordChar c = true

/-- A text that begins with a word after which, perhaps after blanks, no other word comes but some
other character. -/
def EndsWords (s : List Char) : Prop :=
  ∃ w gap c rest, s = w ++ (gap ++ c :: rest) ∧ IsWord w ∧ (∀ b ∈ gap, isBlank b = true) ∧
    isWordChar c = false ∧ isBlank c = false

/-- A text that begins with some words, each with blanks after it, before it goes on in a given way. -/
inductive Leads (goal : List Char → Prop) : List (List Char) → List Char → Prop where
  /-- No more words. -/
  | here {s : List Char} (h : goal s) : Leads goal [] s
  /-- One word and its blanks. -/
  | word {w gap s : List Char} {words : List (List Char)} (hword : IsWord w) (hne : gap ≠ [])
      (hblank : ∀ b ∈ gap, isBlank b = true) (h : Leads goal words s) :
      Leads goal (w :: words) (w ++ (gap ++ s))

theorem beginsWord_append {w : List Char} (hw : IsWord w) (s : List Char) : BeginsWord (w ++ s) := by
  obtain ⟨hne, hchars⟩ := hw
  obtain ⟨c, rest, rfl⟩ := List.exists_cons_of_ne_nil hne
  exact ⟨c, rest ++ s, rfl, hchars c List.mem_cons_self⟩

theorem BeginsWord.exists_word {s : List Char} (h : BeginsWord s) :
    ∃ w rest, s = w ++ rest ∧ IsWord w := by
  obtain ⟨c, rest, rfl, hc⟩ := h
  exact ⟨[c], rest, rfl, List.cons_ne_nil c [], by simpa using hc⟩

theorem EndsWords.beginsWord {s : List Char} (h : EndsWords s) : BeginsWord s := by
  obtain ⟨w, gap, c, rest, rfl, hw, -⟩ := h
  exact beginsWord_append hw _

theorem Leads.beginsWord {goal : List Char → Prop} (hgoal : ∀ s, goal s → BeginsWord s)
    {words : List (List Char)} {s : List Char} (h : Leads goal words s) : BeginsWord s := by
  cases h with
  | here h => exact hgoal s h
  | word hword => exact beginsWord_append hword _

/-- Words with their blanks stand before whatever comes next. -/
theorem Leads.append {goal : List Char → Prop} {words more : List (List Char)} {s t : List Char}
    (h : Leads (· = []) words s) (h' : Leads goal more t) : Leads goal (words ++ more) (s ++ t) := by
  induction h with
  | here hs =>
    subst hs
    exact h'
  | word hword hne hblank _ ih =>
    rw [List.append_assoc, List.append_assoc]
    exact .word hword hne hblank ih

/-- The words of a reading can be cut anywhere. -/
theorem Leads.exists_append {goal : List Char → Prop} {words more : List (List Char)} {s : List Char}
    (h : Leads goal (words ++ more) s) :
    ∃ t u, s = t ++ u ∧ Leads (· = []) words t ∧ Leads goal more u := by
  induction words generalizing s with
  | nil => exact ⟨[], s, rfl, .here rfl, h⟩
  | cons w words ih =>
    cases h with
    | @word _ gap s _ hword hne hblank hrest =>
      obtain ⟨t, u, rfl, ht, hu⟩ := ih hrest
      exact ⟨w ++ (gap ++ t), u, by simp only [List.append_assoc], .word hword hne hblank ht, hu⟩

/-- A text is cut in one way only after its first characters of a class. -/
theorem append_inj_of_class {p : Char → Bool} {s s' t t' : List Char} (hs : ∀ c ∈ s, p c = true)
    (hs' : ∀ c ∈ s', p c = true) (ht : ∀ c ∈ t.head?, p c = false) (ht' : ∀ c ∈ t'.head?, p c = false)
    (h : s ++ t = s' ++ t') : s = s' ∧ t = t' := by
  have htake : ∀ u v : List Char, (∀ c ∈ u, p c = true) → (∀ c ∈ v.head?, p c = false) →
      (u ++ v).takeWhile p = u := by
    intro u v hu hv
    have hnone : v.takeWhile p = [] := by
      cases v with
      | nil => rfl
      | cons c v => rw [List.takeWhile_cons_of_neg (by simp [hv c rfl])]
    rw [List.takeWhile_append_of_pos hu, hnone, List.append_nil]
  have heq : s = s' := by rw [← htake s t hs ht, h, htake s' t' hs' ht']
  subst heq
  exact ⟨rfl, List.append_cancel_left h⟩

/-- So is a text before its last characters of a class. -/
theorem append_inj_of_class_right {p : Char → Bool} {s s' t t' : List Char} (hs : ∀ c ∈ s, p c = true)
    (hs' : ∀ c ∈ s', p c = true) (ht : ∀ c ∈ t.getLast?, p c = false)
    (ht' : ∀ c ∈ t'.getLast?, p c = false) (h : t ++ s = t' ++ s') : t = t' ∧ s = s' := by
  have hreverse := congrArg List.reverse h
  rw [List.reverse_append, List.reverse_append] at hreverse
  obtain ⟨hfirst, hlast⟩ := append_inj_of_class (by simpa using hs) (by simpa using hs')
    (by simpa using ht) (by simpa using ht') hreverse
  exact ⟨List.reverse_injective hlast, List.reverse_injective hfirst⟩

theorem isBlank_of_beginsWord {s : List Char} (h : BeginsWord s) : ∀ c ∈ s.head?, isBlank c = false := by
  obtain ⟨d, rest, rfl, hd⟩ := h
  rintro c ⟨⟩
  cases hblank : isBlank d with
  | false => rfl
  | true =>
    rw [isWordChar_of_isBlank hblank] at hd
    cases hd

theorem isWordChar_of_gap {gap : List Char} (hne : gap ≠ []) (hblank : ∀ b ∈ gap, isBlank b = true)
    (s : List Char) : ∀ c ∈ (gap ++ s).head?, isWordChar c = false := by
  obtain ⟨b, more, rfl⟩ := List.exists_cons_of_ne_nil hne
  rintro c ⟨⟩
  exact isWordChar_of_isBlank (hblank b List.mem_cons_self)

/-- A text is cut in one way only after its first word and the blanks after that. -/
theorem word_gap_inj {w gap s w' gap' s' : List Char} (hw : IsWord w) (hw' : IsWord w')
    (hne : gap ≠ []) (hne' : gap' ≠ []) (hblank : ∀ b ∈ gap, isBlank b = true)
    (hblank' : ∀ b ∈ gap', isBlank b = true) (hs : BeginsWord s) (hs' : BeginsWord s')
    (h : w ++ (gap ++ s) = w' ++ (gap' ++ s')) : w = w' ∧ gap = gap' ∧ s = s' := by
  obtain ⟨rfl, hgaps⟩ := append_inj_of_class hw.isWordChar hw'.isWordChar
    (isWordChar_of_gap hne hblank s) (isWordChar_of_gap hne' hblank' s') h
  exact ⟨rfl, append_inj_of_class hblank hblank' (isBlank_of_beginsWord hs)
    (isBlank_of_beginsWord hs') hgaps⟩

/-- Of two readings of a text one has the words of the other and perhaps more. -/
theorem Leads.comparable {words words' : List (List Char)} {s : List Char}
    (h : Leads BeginsWord words s) (h' : Leads BeginsWord words' s) :
    words <+: words' ∨ words' <+: words := by
  induction h generalizing words' with
  | here => exact .inl List.nil_prefix
  | @word w gap s words hword hne hblank hrest ih =>
    generalize htext : w ++ (gap ++ s) = text at h'
    cases h' with
    | here => exact .inr List.nil_prefix
    | @word w' gap' s' words' hword' hne' hblank' hrest' =>
      obtain ⟨rfl, rfl, rfl⟩ := word_gap_inj hword hword' hne hne' hblank hblank'
        (hrest.beginsWord fun _ h => h) (hrest'.beginsWord fun _ h => h) htext
      exact (ih hrest').imp (List.prefix_cons_inj w).mpr (List.prefix_cons_inj w).mpr

/-- Two readings of a text begin with the same word. -/
theorem Leads.first_unique {w w' : List Char} {words words' : List (List Char)} {s : List Char}
    (h : Leads BeginsWord (w :: words) s) (h' : Leads BeginsWord (w' :: words') s) : w' = w := by
  rcases h.comparable h' with hbegins | hbegins
  · exact (List.cons_prefix_cons.mp hbegins).1.symm
  · exact (List.cons_prefix_cons.mp hbegins).1

/-- Two readings with the same words leave the same rest. -/
theorem Leads.and {goal goal' : List Char → Prop} (hgoal : ∀ s, goal s → BeginsWord s)
    (hgoal' : ∀ s, goal' s → BeginsWord s) {words : List (List Char)} {s : List Char}
    (h : Leads goal words s) (h' : Leads goal' words s) :
    Leads (fun t => goal t ∧ goal' t) words s := by
  induction h with
  | here hs =>
    cases h' with
    | here hs' => exact .here ⟨hs, hs'⟩
  | @word w gap s words hword hne hblank hrest ih =>
    generalize htext : w ++ (gap ++ s) = text at h'
    cases h' with
    | @word _ gap' s' _ hword' hne' hblank' hrest' =>
      obtain ⟨-, rfl, rfl⟩ := word_gap_inj hword hword' hne hne' hblank hblank'
        (hrest.beginsWord hgoal) (hrest'.beginsWord hgoal') htext
      exact .word hword hne hblank (ih hrest')

theorem Leads.imp {goal goal' : List Char → Prop} (himp : ∀ s, goal s → goal' s)
    {words : List (List Char)} {s : List Char} (h : Leads goal words s) : Leads goal' words s := by
  induction h with
  | here hs => exact .here (himp _ hs)
  | word hword hne hblank _ ih => exact .word hword hne hblank ih

theorem Leads.exists_goal {goal : List Char → Prop} {words : List (List Char)} {s : List Char}
    (h : Leads goal words s) : ∃ t, goal t := by
  induction h with
  | here hs => exact ⟨_, hs⟩
  | word _ _ _ _ ih => exact ih

/-- Of two readings of a text, one of which ends with a last word, this one has all the words of the
other before that. -/
theorem Leads.prefix_of_ends {words words' : List (List Char)} {s : List Char}
    (h : Leads BeginsWord words s) (h' : Leads EndsWords words' s) : words <+: words' := by
  induction h generalizing words' with
  | here => exact List.nil_prefix
  | @word w gap s words hword hne hblank hrest ih =>
    have hblank_s := isBlank_of_beginsWord (hrest.beginsWord fun _ h => h)
    generalize htext : w ++ (gap ++ s) = text at h'
    cases h' with
    | here hends =>
      -- Words and gaps are the longest runs of their classes, so both readings cut in the same places;
      -- but after the gap there is a word in the one and none in the other.
      obtain ⟨w', gap', c, rest, rfl, hword', hblank', hc, hc'⟩ := hends
      have hhead : ∀ d ∈ (gap' ++ c :: rest).head?, isWordChar d = false := by
        by_cases hne' : gap' = []
        · subst hne'
          rintro d ⟨⟩
          exact hc
        · exact isWordChar_of_gap hne' hblank' _
      obtain ⟨rfl, hgaps⟩ := append_inj_of_class hword.isWordChar hword'.isWordChar
        (isWordChar_of_gap hne hblank s) hhead htext
      obtain ⟨rfl, rfl⟩ := append_inj_of_class hblank hblank' hblank_s
        (by rintro d ⟨⟩; exact hc') hgaps
      obtain ⟨d, more, heq, hd⟩ := hrest.beginsWord fun _ h => h
      cases heq
      rw [hc] at hd
      cases hd
    | @word w' gap' s' words' hword' hne' hblank' hrest' =>
      obtain ⟨rfl, rfl, rfl⟩ := word_gap_inj hword hword' hne hne' hblank hblank'
        (hrest.beginsWord fun _ h => h) (hrest'.beginsWord fun _ h => h.beginsWord) htext
      exact (List.prefix_cons_inj w).mpr (ih hrest')

/-! ### The words of the headers -/

theorem reads_word {s : List Char} {a : List (List Char)} :
    Pattern.word.Reads s a ↔ IsWord s ∧ a = [] := by
  rw [Pattern.word, reads_run]
  constructor
  · rintro ⟨hlength, hs, rfl⟩
    exact ⟨⟨List.ne_nil_of_length_pos hlength, hs⟩, rfl⟩
  · rintro ⟨⟨hne, hs⟩, rfl⟩
    exact ⟨List.length_pos_of_ne_nil hne, hs, rfl⟩

theorem reads_gap {s : List Char} {a : List (List Char)} :
    Pattern.gap.Reads s a ↔ s ≠ [] ∧ (∀ c ∈ s, isBlank c = true) ∧ a = [] := by
  rw [Pattern.gap, reads_run, ← List.length_pos_iff]
  rfl

theorem reads_blanks {s : List Char} {a : List (List Char)} :
    Pattern.blanks.Reads s a ↔ (∀ c ∈ s, isBlank c = true) ∧ a = [] := by
  rw [Pattern.blanks, reads_run]
  exact and_iff_right (Nat.zero_le _)

/-- A keyword with its gap. -/
theorem leads_of_keyword {p : Pattern} (keywords : List (List Char))
    (hp : ∀ s a, p.Reads s a → s ∈ keywords) (hkeywords : ∀ w ∈ keywords, IsWord w)
    {s : List Char} {a : List (List Char)} (h : (p ++ gap).Reads s a) :
    ∃ w ∈ keywords, Leads (· = []) [w] s := by
  obtain ⟨w, g, b, c, rfl, -, hw, hg⟩ := reads_append.mp h
  obtain ⟨hne, hblank, -⟩ := reads_gap.mp hg
  have hmem := hp w b hw
  refine ⟨w, hmem, ?_⟩
  have hone : Leads (· = []) [w] (w ++ (g ++ [])) := .word (hkeywords w hmem) hne hblank (.here rfl)
  rwa [List.append_nil] at hone

/-- An optional keyword with its gap. -/
theorem exists_leads_of_opt {p : Pattern} (keywords : List (List Char))
    (hp : ∀ s a, p.Reads s a → s ∈ keywords) (hkeywords : ∀ w ∈ keywords, IsWord w)
    {s : List Char} {a : List (List Char)} (h : (opt (p ++ gap)).Reads s a) :
    ∃ words, (∀ w ∈ words, w ∈ keywords) ∧ Leads (· = []) words s := by
  rcases reads_opt.mp h with hreads | ⟨rfl, -⟩
  · obtain ⟨w, hw, hleads⟩ := leads_of_keyword keywords hp hkeywords hreads
    exact ⟨[w], by simpa using hw, hleads⟩
  · exact ⟨[], by simp, .here rfl⟩

namespace Binding

/-- The words that may stand before the name of an arrow function. -/
def leadingWords : List (List Char) := ["export".toList, "const".toList, "let".toList, "var".toList]

theorem isWord_of_mem_leadingWords {w : List Char} (h : w ∈ leadingWords) : IsWord w := by
  have hall : ∀ w ∈ leadingWords, w ≠ [] ∧ w.all isWordChar = true := by decide
  obtain ⟨hne, hchars⟩ := hall w h
  exact ⟨hne, List.all_eq_true.mp hchars⟩

theorem isWord_type : IsWord "type".toList := by
  have hchars : "type".toList.all isWordChar = true := by decide
  exact ⟨by decide, List.all_eq_true.mp hchars⟩

theorem exists_leads_of_exported {s : List Char} {a : List (List Char)} (h : exported.Reads s a) :
    ∃ words, (∀ w ∈ words, w ∈ leadingWords) ∧ Leads (· = []) words s := by
  refine exists_leads_of_opt _ (fun s a hs => ?_) (fun w => isWord_of_mem_leadingWords) h
  rw [(reads_text.mp hs).1]
  exact List.mem_cons_self

theorem exists_leads_of_keyword {s : List Char} {a : List (List Char)}
    (h : (opt (keyword ++ gap)).Reads s a) :
    ∃ words, (∀ w ∈ words, w ∈ leadingWords) ∧ Leads (· = []) words s := by
  refine exists_leads_of_opt _ (fun s a hs => ?_) (fun w => isWord_of_mem_leadingWords) h
  simp only [keyword, anyOf, reads_either, reads_text] at hs
  rcases hs with ⟨rfl, -⟩ | ⟨rfl, -⟩ | ⟨rfl, -⟩ <;> decide

/-- The words at the beginning of a type alias. -/
theorem exists_leads_of_typeAlias {s : List Char} (h : typeAlias.Starts s) :
    ∃ blank words t, s = blank ++ t ∧ (∀ c ∈ blank, isBlank c = true) ∧
      Leads BeginsWord (words ++ ["type".toList]) t := by
  obtain ⟨t, a, tail, hreads, rfl⟩ := h.of_append
  obtain ⟨t₄, name, _, _, rfl, -, h₄, hname⟩ := reads_append.mp hreads
  obtain ⟨t₃, spaces, _, _, rfl, -, h₃, hspaces⟩ := reads_append.mp h₄
  obtain ⟨t₂, word, _, _, rfl, -, h₂, hword⟩ := reads_append.mp h₃
  obtain ⟨blank, front, _, _, rfl, -, hblank, hfront⟩ := reads_append.mp h₂
  obtain ⟨words, -, hleads⟩ := exists_leads_of_exported hfront
  obtain ⟨hne, hspaces, -⟩ := reads_gap.mp hspaces
  obtain ⟨rfl, -⟩ := reads_text.mp hword
  have htype : Leads BeginsWord ["type".toList] ("type".toList ++ (spaces ++ (name ++ tail))) :=
    .word isWord_type hne hspaces (.here (beginsWord_append (reads_word.mp hname).1 _))
  refine ⟨blank, words, _, ?_, (reads_blanks.mp hblank).1, hleads.append htype⟩
  simp only [List.append_assoc]

/-- What follows the name of an arrow function is a colon or an equals sign. -/
theorem exists_of_starts_arrowTail {s : List Char} (h : arrowTail.Starts s) :
    ∃ blank c rest, s = blank ++ c :: rest ∧ (∀ b ∈ blank, isBlank b = true) ∧
      isWordChar c = false ∧ isBlank c = false := by
  have hfront := h.of_append.of_append.of_append.of_append.of_append.of_append.of_append
  obtain ⟨t, a, tail, hreads, rfl⟩ := hfront
  obtain ⟨t₂, equals, _, _, rfl, -, h₂, hequals⟩ := reads_append.mp hreads
  obtain ⟨blank, kind, _, _, rfl, -, hblank, hkind⟩ := reads_append.mp h₂
  obtain ⟨rfl, -⟩ := reads_text.mp hequals
  rcases reads_opt.mp hkind with hcolon | ⟨rfl, -⟩
  · obtain ⟨t₁, type, _, _, rfl, -, h₁, -⟩ := reads_append.mp hcolon
    obtain ⟨colon, more, _, _, rfl, -, hcolon, -⟩ := reads_append.mp h₁
    obtain ⟨rfl, -⟩ := reads_text.mp hcolon
    refine ⟨blank, ':', more ++ type ++ "=".toList ++ tail, ?_, (reads_blanks.mp hblank).1, ?_⟩
    · simp
    · decide
  · refine ⟨blank, '=', tail, ?_, (reads_blanks.mp hblank).1, ?_⟩
    · simp
    · decide

/-- The words at the beginning of an arrow function. -/
theorem exists_leads_of_arrowFunction {s : List Char} (h : arrowFunction.Starts s) :
    ∃ blank words t, s = blank ++ t ∧ (∀ c ∈ blank, isBlank c = true) ∧
      (∀ w ∈ words, w ∈ leadingWords) ∧ Leads EndsWords words t := by
  obtain ⟨t, a, tail, hreads, rfl⟩ := h
  obtain ⟨t₄, behind, _, _, rfl, -, h₄, hbehind⟩ := reads_append.mp hreads
  obtain ⟨t₃, name, _, _, rfl, -, h₃, hname⟩ := reads_append.mp h₄
  obtain ⟨t₂, binds, _, _, rfl, -, h₂, hbinds⟩ := reads_append.mp h₃
  obtain ⟨blank, front, _, _, rfl, -, hblank, hfront⟩ := reads_append.mp h₂
  obtain ⟨words, hwords, hleads⟩ := exists_leads_of_exported hfront
  obtain ⟨words', hwords', hleads'⟩ := exists_leads_of_keyword hbinds
  obtain ⟨gap, c, rest, hgap, hblank', hc, hc'⟩ :=
    exists_of_starts_arrowTail ⟨behind, _, tail, hbehind, rfl⟩
  have hname : EndsWords (name ++ (behind ++ tail)) :=
    ⟨name, gap, c, rest, by rw [hgap], (reads_word.mp hname).1, hblank', hc, hc'⟩
  refine ⟨blank, words ++ (words' ++ []), _, ?_, (reads_blanks.mp hblank).1, ?_,
    hleads.append (hleads'.append (.here hname))⟩
  · simp only [List.append_assoc]
  · intro w hw
    rw [List.append_nil] at hw
    exact (List.mem_append.mp hw).elim (hwords w) (hwords' w)

/-- **No text begins with a type alias and with an arrow function.** -/
theorem not_typeAlias_of_arrowFunction {s : List Char} (h : arrowFunction.Starts s) :
    ¬typeAlias.Starts s := by
  intro halias
  obtain ⟨blank, words, t, rfl, hblank, hwords, hleads⟩ := exists_leads_of_arrowFunction h
  obtain ⟨blank', words', t', heq, hblank', hleads'⟩ := exists_leads_of_typeAlias halias
  obtain ⟨-, rfl⟩ := append_inj_of_class hblank hblank'
    (isBlank_of_beginsWord (hleads.beginsWord fun _ h => h.beginsWord))
    (isBlank_of_beginsWord (hleads'.beginsWord fun _ h => h)) heq
  -- The keyword of a type alias has a word after it, and the name of an arrow function has none.
  have hmem := (hleads'.prefix_of_ends hleads).subset (List.mem_append_right _ List.mem_cons_self)
  exact absurd (hwords _ hmem) (by decide)

end Binding

end Vicinity
