import Mathlib.Data.List.TakeWhile
import Vicinity.Candidate
import Vicinity.Proofs.Language.Bindings
import Vicinity.Proofs.Text.Searching

/-!
# Words in a text

Where a word stands in a text is told by what stands before it and after it. An identifier of the text
(`TokenAt`) goes as far to the right as identifier characters go, and at most digits stand between it and
a character that cannot be in an identifier. A word stands as a whole (`WholeAt`) if there is no
identifier character next to it, and it is called (`Called`) where an opening parenthesis comes after it.

## What is proved

* `Tokenized.mem_iff`, `exists_tokenized`: which identifiers a text has, and in which order they are listed.
* `isCalled_iff`: which words are taken for called.
* `mem_wholeWordColumns`: in which columns a word is found; none is missed, although the search goes on
  behind each place at which the characters of the word stand.
* `mem_candidateWords`, `pairwise_candidateWords`: the words that are worth asking about, in order.
-/

namespace Vicinity

open Text

/-- A word that can be an identifier. -/
def IsIdentifier (word : List Char) : Prop :=
  ∃ c rest, word = c :: rest ∧ isIdentifierStart c = true ∧ ∀ d ∈ rest, isIdentifierChar d = true

/-- An identifier stands in a text between what is before it and what is after it. -/
structure TokenAt (text before word after : List Char) : Prop where
  isIdentifier : IsIdentifier word
  text_eq : text = before ++ word ++ after
  /-- Where an identifier could begin before it, it has ended. -/
  fresh : ∀ front c run, before = front ++ c :: run → isIdentifierStart c = true →
    ∃ d ∈ run, isIdentifierChar d = false
  /-- It goes as far as it can. -/
  ended : ∀ c ∈ after.head?, isIdentifierChar c = false

/-- A word stands in a text as a whole between what is before it and what is after it. -/
structure WholeAt (text before word after : List Char) : Prop where
  text_eq : text = before ++ word ++ after
  before_free : ∀ c ∈ before.getLast?, isIdentifierChar c = false
  after_free : ∀ c ∈ after.head?, isIdentifierChar c = false

/-- A word stands somewhere in a text, not right after an identifier character, with an opening
parenthesis after it and only blanks between. -/
def Called (text word : List Char) : Prop :=
  ∃ before blanks after, text = before ++ word ++ blanks ++ '(' :: after ∧
    (∀ c ∈ before.getLast?, isIdentifierChar c = false) ∧ ∀ b ∈ blanks, isBlank b = true

/-- A word stands in a text as an identifier before another one does. -/
def SeenBefore (text v w : List Char) : Prop :=
  ∃ before after, TokenAt text before v after ∧
    ∀ before' after', TokenAt text before' w after' → before.length < before'.length

theorem isIdentifierChar_of_start {c : Char} (h : isIdentifierStart c = true) :
    isIdentifierChar c = true := by
  simp only [isIdentifierStart, isIdentifierChar, Char.isAlphanum, Bool.or_eq_true] at h ⊢
  tauto

theorem IsIdentifier.chars {word : List Char} (h : IsIdentifier word) :
    ∀ c ∈ word, isIdentifierChar c = true := by
  obtain ⟨c, rest, rfl, hc, hrest⟩ := h
  simpa using ⟨isIdentifierChar_of_start hc, hrest⟩

theorem IsIdentifier.ne_nil {word : List Char} (h : IsIdentifier word) : word ≠ [] := by
  obtain ⟨c, rest, rfl, -, -⟩ := h
  exact List.cons_ne_nil c rest

/-! ### The identifiers of a text -/

/-- The identifiers found before stay where they are. -/
theorem identifiers_go_eq (s current : List Char) (found : List (List Char)) :
    identifiers.go s current found = found.reverse ++ identifiers.go s current [] := by
  induction s generalizing current found with
  | nil => cases current <;> simp [identifiers.go]
  | cons c rest ih =>
    cases current with
    | nil =>
      simp only [identifiers.go]
      split
      · exact ih [c] found
      · exact ih [] found
    | cons d current =>
      simp only [identifiers.go]
      split
      · exact ih (c :: d :: current) found
      · rw [ih [] ((d :: current).reverse :: found), ih [] [(d :: current).reverse]]
        simp

/-- An unfinished identifier takes the identifier characters that follow. -/
theorem identifiers_go_append {run after : List Char} (hrun : ∀ d ∈ run, isIdentifierChar d = true)
    (hafter : ∀ c ∈ after.head?, isIdentifierChar c = false) (c : Char) (current : List Char) :
    identifiers.go (run ++ after) (c :: current) [] =
      ((c :: current).reverse ++ run) :: identifiers after := by
  induction run generalizing c current with
  | nil =>
    cases after with
    | nil => simp [identifiers, identifiers.go]
    | cons d after =>
      have hd : isIdentifierChar d = false := hafter d rfl
      have hstart : isIdentifierStart d = false := by
        by_contra h
        rw [isIdentifierChar_of_start (Bool.of_not_eq_false h)] at hd
        cases hd
      rw [List.nil_append, identifiers.go, if_neg (by simp [hd]), identifiers_go_eq, identifiers,
        identifiers.go, if_neg (by simp [hstart])]
      · simp
      · exact List.cons_ne_nil c current
  | cons d run ih =>
    have hd : isIdentifierChar d = true := hrun d List.mem_cons_self
    rw [List.cons_append, identifiers.go, if_pos hd, ih (fun e he => hrun e (.tail d he))]
    · simp
    · exact List.cons_ne_nil c current

theorem identifiers_cons_of_not_start {c : Char} (hc : isIdentifierStart c = false) (rest : List Char) :
    identifiers (c :: rest) = identifiers rest := by
  simp [identifiers, identifiers.go, hc]

/-- At its beginning an identifier goes as far as it can. -/
theorem identifiers_append {word after : List Char} (hword : IsIdentifier word)
    (hafter : ∀ c ∈ after.head?, isIdentifierChar c = false) :
    identifiers (word ++ after) = word :: identifiers after := by
  obtain ⟨c, rest, rfl, hc, hrest⟩ := hword
  rw [identifiers, List.cons_append, identifiers.go, if_pos hc, identifiers_go_append hrest hafter]
  rfl

/-- How a text is read from an offset on: a character with which no identifier begins is passed over, and
an identifier goes as far as it can. What is found comes with its offset. -/
inductive Tokenized : Nat → List Char → List (Nat × List Char) → Prop where
  | nil {offset : Nat} : Tokenized offset [] []
  | skip {offset : Nat} {c : Char} {rest : List Char} {found : List (Nat × List Char)}
      (hc : isIdentifierStart c = false) (h : Tokenized (offset + 1) rest found) :
      Tokenized offset (c :: rest) found
  | token {offset : Nat} {word after : List Char} {found : List (Nat × List Char)}
      (hword : IsIdentifier word) (hafter : ∀ c ∈ after.head?, isIdentifierChar c = false)
      (h : Tokenized (offset + word.length) after found) :
      Tokenized offset (word ++ after) ((offset, word) :: found)

/-- Every text is read, and what is found are its identifiers. -/
theorem exists_tokenized (offset : Nat) (text : List Char) :
    ∃ found, Tokenized offset text found ∧ found.map Prod.snd = identifiers text := by
  induction hn : text.length using Nat.strong_induction_on generalizing offset text with
  | _ n ih =>
    cases text with
    | nil => exact ⟨[], .nil, rfl⟩
    | cons c rest =>
      rw [List.length_cons] at hn
      cases hc : isIdentifierStart c with
      | false =>
        obtain ⟨found, hfound, heq⟩ := ih _ (by omega) (offset + 1) rest rfl
        exact ⟨found, .skip hc hfound, by rw [heq, identifiers_cons_of_not_start hc]⟩
      | true =>
        have hshorter : (rest.dropWhile isIdentifierChar).length ≤ rest.length :=
          (List.dropWhile_sublist _).length_le
        have hword : IsIdentifier (c :: rest.takeWhile isIdentifierChar) :=
          ⟨c, _, rfl, hc, fun d hd => List.mem_takeWhile_imp hd⟩
        have hafter := Pattern.head?_dropWhile isIdentifierChar rest
        have hsplit : c :: rest =
            c :: rest.takeWhile isIdentifierChar ++ rest.dropWhile isIdentifierChar := by
          rw [List.cons_append, List.takeWhile_append_dropWhile]
        obtain ⟨found, hfound, heq⟩ := ih _ (by omega)
          (offset + (c :: rest.takeWhile isIdentifierChar).length) (rest.dropWhile isIdentifierChar) rfl
        rw [hsplit]
        refine ⟨(offset, _) :: found, .token hword hafter hfound, ?_⟩
        rw [identifiers_append hword hafter, List.map_cons, heq]

/-- Behind a character with which no identifier begins the identifiers are those of what comes after it. -/
theorem tokenAt_cons_of_not_start {c : Char} (hc : isIdentifierStart c = false)
    {rest before word after : List Char} :
    TokenAt (c :: rest) before word after ↔
      ∃ more, before = c :: more ∧ TokenAt rest more word after := by
  constructor
  · rintro ⟨hword, htext, hfresh, hended⟩
    cases before with
    | nil =>
      obtain ⟨d, run, rfl, hd, -⟩ := hword
      obtain ⟨rfl, -⟩ := List.cons.inj htext
      rw [hc] at hd
      cases hd
    | cons d more =>
      obtain ⟨rfl, hrest⟩ := List.cons.inj htext
      refine ⟨more, rfl, hword, hrest, fun front e run hmore he => ?_, hended⟩
      exact hfresh (c :: front) e run (by rw [hmore, List.cons_append]) he
  · rintro ⟨more, rfl, hword, rfl, hfresh, hended⟩
    refine ⟨hword, rfl, fun front e run hmore he => ?_, hended⟩
    cases front with
    | nil =>
      obtain ⟨rfl, -⟩ := List.cons.inj hmore
      rw [hc] at he
      cases he
    | cons d front => exact hfresh front e run (List.cons.inj hmore).2 he

/-- A text that begins with an identifier has it there and the identifiers of what comes after it. -/
theorem tokenAt_append {word rest : List Char} (hword : IsIdentifier word)
    (hrest : ∀ c ∈ rest.head?, isIdentifierChar c = false) {before w after : List Char} :
    TokenAt (word ++ rest) before w after ↔ (before = [] ∧ w = word ∧ after = rest) ∨
      ∃ more, before = word ++ more ∧ TokenAt rest more w after := by
  constructor
  · rintro ⟨hw, htext, hfresh, hended⟩
    rw [List.append_assoc] at htext
    rcases List.append_eq_append_iff.mp htext with ⟨more, rfl, hmore⟩ | ⟨more, hmore, hafter⟩
    · refine .inr ⟨more, rfl, hw, by rw [hmore, List.append_assoc], fun front c run h hc => ?_, hended⟩
      exact hfresh (word ++ front) c run (by rw [h, List.append_assoc]) hc
    · cases before with
      | nil =>
        obtain ⟨rfl, rfl⟩ := append_inj_of_class hword.chars hw.chars hrest hended htext
        exact .inl ⟨rfl, rfl, rfl⟩
      | cons c run =>
        -- no place inside an identifier is one where another begins
        have hchars := hword.chars
        obtain ⟨e, tail, rfl, he, -⟩ := hword
        obtain ⟨rfl, rfl⟩ := List.cons.inj hmore
        obtain ⟨d, hd, hdchar⟩ := hfresh [] e run rfl he
        rw [hchars d (.tail e (List.mem_append_left more hd))] at hdchar
        cases hdchar
  · rintro (⟨rfl, rfl, rfl⟩ | ⟨more, rfl, hw, rfl, hfresh, hended⟩)
    · exact ⟨hword, by rw [List.nil_append], by simp, hrest⟩
    · refine ⟨hw, by simp only [List.append_assoc], fun front c run h hc => ?_, hended⟩
      rcases List.append_eq_append_iff.mp h with ⟨u, -, hmore⟩ | ⟨u, -, hmore⟩
      · exact hfresh u c run hmore hc
      · cases u with
        | nil => exact hfresh [] c run hmore.symm hc
        | cons e u =>
          obtain ⟨rfl, rfl⟩ := List.cons.inj hmore
          cases more with
          | nil =>
            -- what comes after the identifier would begin with an identifier character
            obtain ⟨f, tail, rfl, hf, -⟩ := hw
            have hfree := hrest f rfl
            rw [isIdentifierChar_of_start hf] at hfree
            cases hfree
          | cons d more => exact ⟨d, by simp, hrest d rfl⟩

/-- **What is found in a text are its identifiers**, with their offsets. -/
theorem Tokenized.mem_iff {offset : Nat} {text : List Char} {found : List (Nat × List Char)}
    (h : Tokenized offset text found) {place : Nat} {word : List Char} :
    (place, word) ∈ found ↔
      ∃ before after, TokenAt text before word after ∧ place = offset + before.length := by
  induction h generalizing place with
  | nil =>
    refine iff_of_false List.not_mem_nil ?_
    rintro ⟨before, after, htoken, -⟩
    have hnil := htoken.text_eq.symm
    simp only [List.append_eq_nil_iff] at hnil
    exact htoken.isIdentifier.ne_nil hnil.1.2
  | @skip offset c rest found hc _ ih =>
    rw [ih]
    constructor
    · rintro ⟨before, after, htoken, rfl⟩
      refine ⟨c :: before, after, (tokenAt_cons_of_not_start hc).mpr ⟨before, rfl, htoken⟩, ?_⟩
      rw [List.length_cons]
      omega
    · rintro ⟨before, after, htoken, rfl⟩
      obtain ⟨more, rfl, hmore⟩ := (tokenAt_cons_of_not_start hc).mp htoken
      refine ⟨more, after, hmore, ?_⟩
      rw [List.length_cons]
      omega
  | @token offset w rest found hw hrest _ ih =>
    rw [List.mem_cons, ih, Prod.mk.injEq]
    constructor
    · rintro (⟨rfl, rfl⟩ | ⟨before, after, htoken, rfl⟩)
      · exact ⟨[], rest, (tokenAt_append hw hrest).mpr (.inl ⟨rfl, rfl, rfl⟩), rfl⟩
      · refine ⟨w ++ before, after, (tokenAt_append hw hrest).mpr (.inr ⟨before, rfl, htoken⟩), ?_⟩
        rw [List.length_append, Nat.add_assoc]
    · rintro ⟨before, after, htoken, rfl⟩
      rcases (tokenAt_append hw hrest).mp htoken with ⟨rfl, rfl, rfl⟩ | ⟨more, rfl, hmore⟩
      · exact .inl ⟨rfl, rfl⟩
      · refine .inr ⟨more, after, hmore, ?_⟩
        rw [List.length_append, Nat.add_assoc]

/-- They are found in the order in which they stand. -/
theorem Tokenized.pairwise {offset : Nat} {text : List Char} {found : List (Nat × List Char)}
    (h : Tokenized offset text found) : found.Pairwise fun a b => a.1 < b.1 := by
  induction h with
  | nil => exact .nil
  | skip _ _ ih => exact ih
  | @token offset w rest found hw _ h ih =>
    refine List.pairwise_cons.mpr ⟨fun b hb => ?_, ih⟩
    obtain ⟨before, after, -, hplace⟩ := h.mem_iff.mp hb
    have hlength := List.length_pos_of_ne_nil hw.ne_nil
    show offset < b.1
    omega

/-- The elements that stay are in the order of their first places. -/
theorem pairwise_firstByKey_of_places {α : Type} [DecidableEq α] {found : List (Nat × α)}
    (h : found.Pairwise fun a b => a.1 < b.1) :
    (firstByKey id (found.map Prod.snd)).Pairwise fun v w =>
      ∃ p, (p, v) ∈ found ∧ ∀ q, (q, w) ∈ found → p < q := by
  induction found with
  | nil => exact .nil
  | cons first more ih =>
    obtain ⟨place, v⟩ := first
    obtain ⟨hfirst, hmore⟩ := List.pairwise_cons.mp h
    have hlater : ∀ {w : α}, w ≠ v → ∀ {q : Nat}, (q, w) ∈ (place, v) :: more → (q, w) ∈ more := by
      rintro w hne q (_ | ⟨_, hq⟩)
      · exact absurd rfl hne
      · exact hq
    rw [List.map_cons, firstByKey_cons, List.pairwise_cons]
    constructor
    · intro w hw
      have hne : w ≠ v := of_decide_eq_true (List.mem_filter.mp hw).2
      exact ⟨place, List.mem_cons_self, fun q hq => hfirst _ (hlater hne hq)⟩
    · have htail := (ih hmore).sublist
        (List.filter_sublist (p := fun y => decide (id y ≠ id v)))
      refine htail.imp_of_mem fun {u w} _ hw ⟨p, hp, hbefore⟩ => ?_
      have hne : w ≠ v := of_decide_eq_true (List.mem_filter.mp hw).2
      exact ⟨p, .tail _ hp, fun q hq => hbefore q (hlater hne hq)⟩

/-! ### Going through a text -/

/-- A word stands in what comes after a character, if there is one before it, and not right after an
identifier character. -/
structure StandsAt (previous : Option Char) (s before word after : List Char) : Prop where
  text_eq : s = before ++ word ++ after
  before_free : ∀ c ∈ before.getLast?.or previous, isIdentifierChar c = false

theorem any_eq_false_iff {previous : Option Char} :
    previous.any isIdentifierChar = false ↔ ∀ c ∈ previous, isIdentifierChar c = false := by
  cases previous <;> simp

/-- A word stands at the beginning of a text, or behind its first character. -/
theorem standsAt_cons {previous : Option Char} {c : Char} {rest before word after : List Char} :
    StandsAt previous (c :: rest) before word after ↔
      (before = [] ∧ c :: rest = word ++ after ∧ previous.any isIdentifierChar = false) ∨
        ∃ more, before = c :: more ∧ StandsAt (some c) rest more word after := by
  constructor
  · rintro ⟨htext, hfree⟩
    cases before with
    | nil => exact .inl ⟨rfl, htext, any_eq_false_iff.mpr hfree⟩
    | cons d more =>
      obtain ⟨rfl, hrest⟩ := List.cons.inj htext
      rw [getLast?_cons_or] at hfree
      exact .inr ⟨more, rfl, hrest, hfree⟩
  · rintro (⟨rfl, htext, hfree⟩ | ⟨more, rfl, rfl, hfree⟩)
    · exact ⟨htext, any_eq_false_iff.mp hfree⟩
    · exact ⟨rfl, by rwa [getLast?_cons_or]⟩

/-! ### Called words -/

/-- Only blanks stand before an opening parenthesis. -/
theorem head?_trimStart_eq_parenthesis {s : List Char} :
    (trimStart s).head? = some '(' ↔
      ∃ blanks after, s = blanks ++ '(' :: after ∧ ∀ b ∈ blanks, isBlank b = true := by
  constructor
  · intro h
    obtain ⟨after, hafter⟩ := List.head?_eq_some_iff.mp h
    refine ⟨s.takeWhile isBlank, after, ?_, fun b hb => List.mem_takeWhile_imp hb⟩
    rw [← hafter, trimStart, List.takeWhile_append_dropWhile]
  · rintro ⟨blanks, after, rfl, hblanks⟩
    have hparenthesis : ¬isBlank '(' = true := by decide
    rw [trimStart, List.dropWhile_append_of_pos hblanks, List.dropWhile_cons_of_neg hparenthesis]
    rfl

theorem isCalled_go_iff {word s : List Char} (previous : Option Char) :
    isCalled.go word s (previous.any isIdentifierChar) = true ↔
      ∃ before after, StandsAt previous s before word after ∧ (trimStart after).head? = some '(' := by
  induction s generalizing previous with
  | nil =>
    refine iff_of_false Bool.false_ne_true ?_
    rintro ⟨before, after, hstands, hcalled⟩
    have hnil := hstands.text_eq.symm
    simp only [List.append_eq_nil_iff] at hnil
    rw [hnil.2] at hcalled
    cases hcalled
  | cons c rest ih =>
    have hrest : isCalled.go word rest (isIdentifierChar c) = true ↔ ∃ before after,
        StandsAt (some c) rest before word after ∧ (trimStart after).head? = some '(' := ih (some c)
    rw [isCalled.go, Bool.or_eq_true, hrest, Bool.and_eq_true, Bool.and_eq_true, Bool.not_eq_true', beq_iff_eq, List.isPrefixOf_iff_prefix]
    constructor
    · rintro (⟨⟨hfree, hbegins⟩, hcalled⟩ | ⟨before, after, hstands, hcalled⟩)
      · have htext := List.prefix_iff_eq_append.mp hbegins
        exact ⟨[], _, standsAt_cons.mpr (.inl ⟨rfl, htext.symm, hfree⟩), hcalled⟩
      · exact ⟨c :: before, after, standsAt_cons.mpr (.inr ⟨before, rfl, hstands⟩), hcalled⟩
    · rintro ⟨before, after, hstands, hcalled⟩
      rcases standsAt_cons.mp hstands with ⟨rfl, htext, hfree⟩ | ⟨more, rfl, hmore⟩
      · rw [htext, List.drop_left]
        exact .inl ⟨⟨hfree, List.prefix_append word after⟩, hcalled⟩
      · exact .inr ⟨more, after, hmore, hcalled⟩

/-- **A word is taken for called where it is called.** -/
theorem isCalled_iff {word text : List Char} : isCalled word text = true ↔ Called text word := by
  have hgo : isCalled word text = true ↔ ∃ before after,
      StandsAt none text before word after ∧ (trimStart after).head? = some '(' := isCalled_go_iff none
  rw [hgo]
  constructor
  · rintro ⟨before, after, ⟨rfl, hfree⟩, hcalled⟩
    obtain ⟨blanks, rest, rfl, hblanks⟩ := head?_trimStart_eq_parenthesis.mp hcalled
    rw [Option.or_none] at hfree
    exact ⟨before, blanks, rest, by simp only [List.append_assoc], hfree, hblanks⟩
  · rintro ⟨before, blanks, after, rfl, hfree, hblanks⟩
    refine ⟨before, blanks ++ '(' :: after, ⟨by simp only [List.append_assoc], ?_⟩,
      head?_trimStart_eq_parenthesis.mpr ⟨blanks, after, rfl, hblanks⟩⟩
    rwa [Option.or_none]

/-! ### Columns -/

/-- Columns are found from left to right. -/
theorem wholeWordColumns_go_sublist (word s : List Char) (column : Nat) (previous : Option Char)
    (resume : Nat) :
    (wholeWordColumns.go word s column previous resume).Sublist (List.range' column s.length) := by
  induction s generalizing column previous resume with
  | nil => exact .slnil
  | cons c rest ih =>
    rw [wholeWordColumns.go, List.length_cons, List.range'_succ]
    dsimp only
    split
    · exact (ih ..).cons column
    · split
      · exact (ih ..).cons column
      · exact (ih ..).cons_cons column

theorem pairwise_wholeWordColumns (word line : List Char) :
    (wholeWordColumns word line).Pairwise (· < ·) :=
  (List.pairwise_lt_range' ..).sublist (wholeWordColumns_go_sublist word line 0 none 0)

/-- What lies before the column at which the search goes on belongs to the last place at which the
characters of the word stand. -/
def InsideWord (s : List Char) (column : Nat) (previous : Option Char) (resume : Nat) : Prop :=
  column < resume →
    previous.any isIdentifierChar = true ∧
      ∀ c ∈ s.take (resume - (column + 1)), isIdentifierChar c = true

theorem InsideWord.next {c : Char} {rest : List Char} {column resume : Nat} {previous : Option Char}
    (h : InsideWord (c :: rest) column previous resume) :
    InsideWord rest (column + 1) (some c) resume := by
  intro hbefore
  obtain ⟨-, hchars⟩ := h (Nat.lt_of_succ_lt hbefore)
  obtain ⟨n, hn⟩ : ∃ n, resume - (column + 1) = n + 1 := ⟨resume - (column + 2), by omega⟩
  rw [hn, List.take_succ_cons] at hchars
  have hmore : resume - (column + 1 + 1) = n := by omega
  rw [hmore]
  exact ⟨hchars c List.mem_cons_self, fun d hd => hchars d (.tail c hd)⟩

/-- Behind the first character of a word its other characters come. -/
theorem InsideWord.of_word {c : Char} {rest word after : List Char} {column : Nat}
    (hchars : ∀ d ∈ word, isIdentifierChar d = true) (h : c :: rest = word ++ after) :
    InsideWord rest (column + 1) (some c) (column + word.length) := by
  intro hbefore
  cases word with
  | nil =>
    rw [List.length_nil] at hbefore
    omega
  | cons d run =>
    obtain ⟨rfl, rfl⟩ := List.cons.inj h
    refine ⟨hchars c List.mem_cons_self, fun e he => hchars e (.tail c ?_)⟩
    rw [List.length_cons] at he
    have hlength : column + (run.length + 1) - (column + 1 + 1) ≤ run.length := by omega
    rw [List.append_eq, List.take_append_of_le_length hlength] at he
    exact List.mem_of_mem_take he

/-- A word stands as a whole at a column of a text that begins at another column, after a character if there
is one before it. -/
def WholeFrom (previous : Option Char) (word s : List Char) (column k : Nat) : Prop :=
  ∃ before after, StandsAt previous s before word after ∧
    (∀ c ∈ after.head?, isIdentifierChar c = false) ∧ k = column + before.length

/-- It stands as a whole at the first column or behind it. -/
theorem wholeFrom_cons {previous : Option Char} {c : Char} {word rest : List Char} {column k : Nat} :
    WholeFrom previous word (c :: rest) column k ↔
      (∃ after, c :: rest = word ++ after ∧ previous.any isIdentifierChar = false ∧
        after.head?.any isIdentifierChar = false ∧ k = column) ∨
        WholeFrom (some c) word rest (column + 1) k := by
  constructor
  · rintro ⟨before, after, hstands, hended, rfl⟩
    rcases standsAt_cons.mp hstands with ⟨rfl, htext, hfree⟩ | ⟨more, rfl, hmore⟩
    · exact .inl ⟨after, htext, hfree, any_eq_false_iff.mpr hended, rfl⟩
    · exact .inr ⟨more, after, hmore, hended, by rw [List.length_cons]; omega⟩
  · rintro (⟨after, htext, hfree, hended, rfl⟩ | ⟨more, after, hmore, hended, rfl⟩)
    · exact ⟨[], after, standsAt_cons.mpr (.inl ⟨rfl, htext, hfree⟩), any_eq_false_iff.mp hended, rfl⟩
    · exact ⟨c :: more, after, standsAt_cons.mpr (.inr ⟨more, rfl, hmore⟩), hended,
        by rw [List.length_cons]; omega⟩

/-- Where the characters of the word stand, it stands as a whole if no identifier character is next to
them. -/
theorem wholeFrom_append {previous : Option Char} {c : Char} {word rest after : List Char} {column k : Nat}
    (h : c :: rest = word ++ after) :
    WholeFrom previous word (c :: rest) column k ↔
      (previous.any isIdentifierChar || after.head?.any isIdentifierChar) = false ∧ k = column ∨
        WholeFrom (some c) word rest (column + 1) k := by
  rw [wholeFrom_cons, Bool.or_eq_false_iff]
  refine or_congr_left ⟨?_, ?_⟩
  · rintro ⟨after', hafter', hfree, hended, rfl⟩
    obtain rfl := List.append_cancel_left (h.symm.trans hafter')
    exact ⟨⟨hfree, hended⟩, rfl⟩
  · rintro ⟨⟨hfree, hended⟩, rfl⟩
    exact ⟨after, h, hfree, hended, rfl⟩

/-- No place at which the word stands as a whole is missed: one inside another place at which its
characters stand would come right after one of these. -/
theorem mem_wholeWordColumns_go {word s : List Char} (hchars : ∀ d ∈ word, isIdentifierChar d = true)
    (hne : word ≠ []) {column resume k : Nat} {previous : Option Char}
    (hinside : InsideWord s column previous resume) :
    k ∈ wholeWordColumns.go word s column previous resume ↔ WholeFrom previous word s column k := by
  induction s generalizing column resume previous with
  | nil =>
    refine iff_of_false List.not_mem_nil ?_
    rintro ⟨before, after, hstands, -, -⟩
    have hnil := hstands.text_eq.symm
    simp only [List.append_eq_nil_iff] at hnil
    exact hne hnil.1.2
  | cons c rest ih =>
    rw [wholeWordColumns.go]
    dsimp only
    split
    · rename_i hskip
      rw [wholeFrom_cons, ih hinside.next, or_iff_right]
      rintro ⟨after, htext, hfree, -⟩
      rw [Bool.or_eq_true, decide_eq_true_eq, Bool.not_eq_true', ← Bool.not_eq_true,
        List.isPrefixOf_iff_prefix] at hskip
      -- before the column at which the search goes on, the character before is in the word
      rcases hskip with hbefore | hno
      · rw [(hinside hbefore).1] at hfree
        cases hfree
      · exact hno (htext ▸ List.prefix_append word after)
    · rename_i hfound
      simp only [Bool.or_eq_true, Bool.not_eq_true', not_or, ← Bool.not_eq_true, not_not,
        List.isPrefixOf_iff_prefix] at hfound
      obtain ⟨after, htext⟩ := hfound.2
      have hdrop : (c :: rest).drop word.length = after := by rw [← htext, List.drop_left]
      rw [wholeFrom_append htext.symm, ← ih (.of_word hchars htext.symm), hdrop]
      split
      · rename_i hpart
        rw [hpart]
        simp
      · rename_i hwhole
        rw [List.mem_cons, Bool.of_not_eq_true hwhole]
        simp

/-- **A column is found if the word stands there as a whole.** -/
theorem mem_wholeWordColumns {word line : List Char} (hchars : ∀ d ∈ word, isIdentifierChar d = true)
    (hne : word ≠ []) {column : Nat} :
    column ∈ wholeWordColumns word line ↔
      ∃ before after, WholeAt line before word after ∧ before.length = column := by
  have hinside : InsideWord line 0 none 0 := fun h => absurd h (Nat.lt_irrefl 0)
  rw [wholeWordColumns, mem_wholeWordColumns_go hchars hne hinside]
  constructor
  · rintro ⟨before, after, ⟨rfl, hfree⟩, hended, rfl⟩
    rw [Option.or_none] at hfree
    exact ⟨before, after, ⟨rfl, hfree, hended⟩, (Nat.zero_add _).symm⟩
  · rintro ⟨before, after, ⟨rfl, hfree, hended⟩, rfl⟩
    exact ⟨before, after, ⟨rfl, by rwa [Option.or_none]⟩, hended, (Nat.zero_add _).symm⟩

/-! ### The words that are worth asking about -/

/-- **Which words are worth asking about.** -/
theorem mem_candidateWords {text name word : List Char} :
    word ∈ candidateWords text name ↔ (∃ before after, TokenAt text before word after) ∧
      String.ofList word ∉ structuralKeywords ∧ word ≠ name ∧ ¬Called text word := by
  obtain ⟨found, hfound, hwords⟩ := exists_tokenized 0 text
  have htoken : word ∈ firstByKey id (identifiers text) ↔
      ∃ before after, TokenAt text before word after := by
    have hkept : word ∈ (firstByKey id (identifiers text)).map id ↔ word ∈ (identifiers text).map id :=
      mem_map_firstByKey
    rw [List.map_id, List.map_id] at hkept
    rw [hkept, ← hwords]
    constructor
    · intro h
      obtain ⟨⟨place, w⟩, hmem, rfl⟩ := List.mem_map.mp h
      obtain ⟨before, after, htoken, -⟩ := hfound.mem_iff.mp hmem
      exact ⟨before, after, htoken⟩
    · rintro ⟨before, after, htoken⟩
      exact List.mem_map.mpr ⟨(0 + before.length, word),
        hfound.mem_iff.mpr ⟨before, after, htoken, rfl⟩, rfl⟩
  rw [candidateWords, List.mem_filter, htoken]
  simp [isCalled_iff, ← Bool.not_eq_true, and_assoc]

/-- **They are listed in the order in which they are first seen.** -/
theorem pairwise_candidateWords (text name : List Char) :
    (candidateWords text name).Pairwise (SeenBefore text) := by
  obtain ⟨found, hfound, hwords⟩ := exists_tokenized 0 text
  have horder := pairwise_firstByKey_of_places hfound.pairwise
  rw [hwords] at horder
  refine (horder.imp fun {v w} ⟨p, hp, hbefore⟩ => ?_).sublist List.filter_sublist
  obtain ⟨before, after, htoken, rfl⟩ := hfound.mem_iff.mp hp
  refine ⟨before, after, htoken, fun before' after' htoken' => ?_⟩
  have h := hbefore _ (hfound.mem_iff.mpr ⟨before', after', htoken', rfl⟩)
  omega

theorem nodup_candidateWords (text name : List Char) : (candidateWords text name).Nodup := by
  have h := nodup_firstByKey id (identifiers text)
  rw [List.map_id] at h
  exact h.sublist List.filter_sublist

end Vicinity
