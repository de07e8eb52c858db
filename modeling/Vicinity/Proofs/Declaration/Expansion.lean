import Vicinity.Proofs.Declaration.Heads
import Vicinity.Proofs.Declaration.Identity
import Vicinity.Proofs.Source.Declarations

/-!
# Expanding a type to its declaration

The search for the declaration around a type of a script goes up from the line on which the type stands
to the nearest line that declares a type. That is the line itself, except for a constant enumeration:
there the declaration before it is returned.

## What is proved

* `exists_isSlice_nearest`: how far down the lines around a reference go.
* `exists_expand?_brace`: what an expansion returns, and what its lines hold.
* `exists_headed`: a type stands at the beginning of a line, and its text begins with a head.
* `expand_type`: where the declaration that is returned for a type begins, and which name it declares.
-/

namespace Vicinity

open Text Text.Pattern

/-! ### What is returned -/

/-- The last line of a declaration comes at the end of the reference or later, unless a brace has been
opened before. -/
theorem exists_isSlice_nearest {ls : List (List Char)} {line : Nat} (h : line < ls.length) (last : Int) :
    ∃ stop, IsSlice ls .brace line last (nearestDeclaration ls line) stop ∧
      (min last (ls.length - 1) ≤ stop ∨
        ∃ inside ∈ linesBetween ls (nearestDeclaration ls line) stop, '\x7b' ∈ inside) := by
  have hne : ls ≠ [] := List.ne_nil_of_length_pos (Nat.zero_lt_of_lt h)
  obtain ⟨start, stop, hslice, -⟩ := exists_isSlice hne .brace line last
  obtain rfl := hslice.isStart.unique (isDeclarationStart_nearest h)
  refine ⟨stop, hslice, ?_⟩
  rcases hslice.isEnd with hleast | ⟨-, hstop⟩
  · exact .inr hleast.1.2.2.1
  · exact .inl (by omega)

theorem allBlank_eq_false_iff {s : List Char} : allBlank s = false ↔ ∃ c ∈ s, isBlank c = false := by
  simp [allBlank]

/-- Lines of which one is not blank are not blank. -/
theorem allBlank_unlines {ls : List (List Char)} {line : List Char} (hline : line ∈ ls)
    (h : allBlank line = false) : allBlank (unlines ls) = false := by
  obtain ⟨c, hc, hblank⟩ := allBlank_eq_false_iff.mp h
  exact allBlank_eq_false_iff.mpr ⟨c, mem_unlines hline hc, hblank⟩

theorem getD_mem_take_drop {ls : List (List Char)} {first line n : Nat} (hfirst : first ≤ line)
    (hline : line < ls.length) (hn : line < first + n) : ls.getD line [] ∈ (ls.drop first).take n := by
  have hindex : line - first < ((ls.drop first).take n).length := by
    rw [List.length_take, List.length_drop]
    omega
  have heq : ls.getD line [] = ((ls.drop first).take n)[line - first] := by
    rw [List.getElem_take, List.getElem_drop, List.getD_eq_getElem?_getD,
      List.getElem?_eq_getElem hline, Option.getD_some]
    congr 1
    omega
  rw [heq]
  exact List.getElem_mem hindex

/-- Lines put together begin with the first of them. -/
theorem prefix_unlines_take_drop {ls : List (List Char)} {first n : Nat} (hfirst : first < ls.length)
    (hn : 0 < n) : ls.getD first [] <+: unlines ((ls.drop first).take n) := by
  obtain ⟨more, hmore, -⟩ := exists_unlines_eq_append ((ls.drop first).take n) Nat.one_pos
  have hone : ((ls.drop first).take n).take 1 = [ls.getD first []] := by
    rw [List.take_take, Nat.min_eq_left hn, List.take_one, List.head?_drop,
      List.getElem?_eq_getElem hfirst, List.getD_eq_getElem?_getD, List.getElem?_eq_getElem hfirst]
    rfl
  rw [hone, unlines_singleton] at hmore
  exact ⟨more, hmore.symm⟩

/-- **What an expansion returns**: the lines from the nearest one that declares a type, with something in
them if the reference does not stand on a blank line; or the text of the reference, if these are headed by
a marker. -/
theorem exists_expand?_brace {text : List Char} {reference : Span} {line : Nat}
    (hline : reference.start.line = line) (h : line < (lines text).length)
    (hstop : line ≤ reference.stop.line) : ∃ (stop : Nat) (raw tail : List Char),
      unlines ((lines text).drop (nearestDeclaration (lines text) line)) = raw ++ tail ∧
      (∀ c ∈ tail.head?, c = '\n') ∧
      (lines text).getD (nearestDeclaration (lines text) line) [] <+: raw ∧
      (allBlank ((lines text).getD line []) = false → allBlank raw = false) ∧
      expand? text reference .brace =
        if !allBlank raw && !headerMarkers.contains (String.ofList (firstWord raw)) then
          some ⟨trimEnd raw, .of (nearestDeclaration (lines text) line) 0 stop
            ((lines text).getD stop []).length⟩
        else if (trim (textIn text reference)).isEmpty then none
        else some ⟨trim (textIn text reference), reference⟩ := by
  obtain ⟨stop, hslice, hreach⟩ := exists_isSlice_nearest h reference.stop.line
  have hnear := nearestDeclaration_le (lines text) line
  generalize nearestDeclaration (lines text) line = first at *
  have hfirst := hslice.start_le
  obtain ⟨tail, htail, hhead⟩ :=
    exists_unlines_eq_append ((lines text).drop first) (show 0 < stop + 1 - first by omega)
  refine ⟨stop, _, tail, htail, hhead, prefix_unlines_take_drop (by omega) (by omega), ?_, ?_⟩
  · intro hblank
    rcases hreach with hlate | ⟨inside, hinside, hbrace⟩
    · exact allBlank_unlines (getD_mem_take_drop hnear h (by omega)) hblank
    · exact allBlank_unlines hinside (allBlank_eq_false_iff.mpr ⟨_, hbrace, by decide⟩)
  · rw [← hline] at hslice
    rw [expand?_eq (by omega) hslice]
    simp only [← isShown_iff]
    rfl

/-! ### Where a type stands -/

namespace Script

/-- How a type stands in a source: at the beginning of a line, with its head first, and with a text that
goes on into `rest`. -/
structure Headed (source : List Char) (s : FlatSymbol) (before front rest : List Char) : Prop where
  source_eq : source = before ++ (front ++ rest)
  lineStart : before.getLast?.all (· == '\n') = true
  isHead : IsHead front s.name.toList
  rest_head : ∀ c ∈ rest.head?, isWordChar c = false
  text : ∃ more, more <+: rest ∧ textIn source s.span = front ++ more
  start_eq : s.span.start = positionOfOffset source before.length
  start_le : s.span.start.line ≤ s.span.stop.line

theorem line_positionOfOffset_mono (s t u : List Char) :
    (positionOfOffset (s ++ t ++ u) s.length).line ≤
      (positionOfOffset (s ++ t ++ u) (s ++ t).length).line := by
  have hlength : s.length ≤ (s ++ t).length := by simp
  have hinside : (s ++ t).length ≤ (s ++ t ++ u).length := by simp
  have hle := positionOfOffset_le hlength hinside
  rw [Position.le_iff] at hle
  omega

/-- What stands in a source with the header of a type stands there with a head. -/
theorem Stands.exists_headed {source : List Char} {header : Pattern} {s : FlatSymbol}
    {before front body tail behind : List Char}
    (h : Stands source header s before (front ++ behind) body tail) (hbegins : header.beginsLine = true)
    (hhead : IsHead front s.name.toList)
    (hrest : ∀ c ∈ (behind ++ (body ++ tail)).head?, isWordChar c = false) :
    ∃ before front rest, Headed source s before front rest := by
  obtain ⟨stop, hmatch, -⟩ := h.matchAt
  refine ⟨before, front, behind ++ (body ++ tail), ?_, ?_, hhead, hrest, ⟨behind ++ body, ?_, ?_⟩, ?_, ?_⟩
  · rw [h.source_eq]
    simp only [List.append_assoc]
  · rw [← atLineStart_after]
    exact atLineStart_of_runWith hbegins hmatch
  · rw [← List.append_assoc]
    exact List.prefix_append _ _
  · rw [h.textIn_eq, List.append_assoc]
  · rw [h.span_eq]
  · rw [h.span_eq, h.source_eq]
    exact line_positionOfOffset_mono before _ tail

/-- A run of blanks before what does not begin with a word. -/
theorem head_of_blanks {blank s : List Char} (hblank : ∀ c ∈ blank, isBlank c = true)
    (hs : ∀ c ∈ s.head?, isWordChar c = false) : ∀ c ∈ (blank ++ s).head?, isWordChar c = false := by
  cases blank with
  | nil => exact hs
  | cons b blank =>
    rintro c ⟨⟩
    exact isWordChar_of_isBlank (hblank b List.mem_cons_self)

/-- What follows the name of a type alias does not go on with the name. -/
theorem head_of_aliasTail {t tail : List Char} {a : List (List Char)} (h : Binding.aliasTail.Reads t a) :
    ∀ c ∈ (t ++ tail).head?, isWordChar c = false := by
  obtain ⟨t₂, equals, _, _, rfl, -, h₂, hequals⟩ := reads_append.mp h
  obtain ⟨t₁, spaces, _, _, rfl, -, h₁, hspaces⟩ := reads_append.mp h₂
  obtain ⟨blank, parameters, _, _, rfl, -, hblank, hparameters⟩ := reads_append.mp h₁
  obtain ⟨rfl, -⟩ := reads_text.mp hequals
  simp only [List.append_assoc]
  refine head_of_blanks (reads_blanks.mp hblank).1 ?_
  rcases reads_opt.mp hparameters with hangle | ⟨rfl, -⟩
  · obtain ⟨inside, close, _, _, rfl, -, hinside, -⟩ := reads_append.mp hangle
    obtain ⟨opening, inner, _, _, rfl, -, hopening, -⟩ := reads_append.mp hinside
    obtain ⟨rfl, -⟩ := reads_text.mp hopening
    rintro c ⟨⟩
    decide
  · refine head_of_blanks (s := '=' :: tail) (reads_blanks.mp hspaces).1 ?_
    rintro c ⟨⟩
    decide

/-- A pattern that captures once, and at its end, captures one text. -/
theorem exists_captured_eq {p q : Pattern} (hbound : (p ++ .capture q).captureBound = some 1)
    {s : List Char} {a : List (List Char)} (h : (p ++ .capture q).Reads s a) : ∃ name, a = [name] := by
  have hlength := h.length_le hbound
  obtain ⟨_, name, b, _, -, rfl, -, hcapture⟩ := reads_append.mp h
  obtain ⟨c, -, rfl⟩ := reads_capture.mp hcapture
  simp only [List.length_append, List.length_singleton] at hlength
  obtain rfl := List.eq_nil_of_length_eq_zero (show b.length = 0 by omega)
  obtain rfl := List.eq_nil_of_length_eq_zero (show c.length = 0 by omega)
  exact ⟨name, rfl⟩

/-- A header that ends with the name is a head. -/
theorem Stands.exists_headed_of_name {source : List Char} {modifiers : Pattern} {s : FlatSymbol}
    {before front body tail : List Char}
    (h : Stands source (modifiers ++ .capture word) s before front body tail)
    (hbegins : modifiers.beginsLine = true) (hmem : modifiers ++ .capture word ∈ typeHeads)
    (hbound : (modifiers ++ .capture word).captureBound = some 1) :
    ∃ before front rest, Headed source s before front rest := by
  obtain ⟨captured, hreads, hname⟩ := h.reads
  obtain ⟨name, rfl⟩ := exists_captured_eq hbound hreads
  have hhead : IsHead front s.name.toList := ⟨_, hmem, by rw [hname]; simpa using hreads⟩
  obtain ⟨stop, hmatch, hstop⟩ := h.matchAt
  rw [← List.append_nil front] at h
  refine h.exists_headed hbegins hhead ?_
  rw [List.nil_append, ← hstop]
  exact rest_of_matchAt_run hmatch

/-- The header of a type alias begins with a head. -/
theorem Stands.exists_headed_of_alias {source : List Char} {s : FlatSymbol}
    {before front body tail : List Char} (h : Stands source aliasHeader s before front body tail) :
    ∃ before front rest, Headed source s before front rest := by
  obtain ⟨captured, hreads, hname⟩ := h.reads
  obtain ⟨front, behind, a, b, rfl, rfl, hfront, hbehind⟩ := reads_append.mp hreads
  have hnone := hbehind.length_le (show Binding.aliasTail.captureBound = some 0 by decide +kernel)
  obtain rfl := List.eq_nil_of_length_eq_zero (Nat.le_zero.mp hnone)
  obtain ⟨name, rfl⟩ :=
    exists_captured_eq (show aliasHead.captureBound = some 1 by decide +kernel) hfront
  have hmem : aliasHead ∈ typeHeads := by simp [typeHeads]
  have hlast : s.name.toList = name := by rw [hname]; simp
  have hhead : IsHead front s.name.toList := ⟨aliasHead, hmem, by rw [hlast]; exact hfront⟩
  refine h.exists_headed (by decide +kernel) hhead ?_
  exact head_of_aliasTail hbehind

/-- The kinds that count as types, and the bindings that do. -/
theorem kind_of_isTypeLike {language : Language} (hlanguage : language.isScript = true)
    {kind : SymbolKind} {text : List Char} (h : isTypeLike language.id kind text = true) :
    kind ∈ [.class, .interface, .enum] ∨
      (kind = .variable ∨ kind = .constant) ∧ Binding.typeAlias.matchesStart text = true := by
  rw [isTypeLike, Language.ofId?_id] at h
  dsimp only at h
  rw [typeKinds_of_isScript hlanguage, Bool.or_eq_true] at h
  refine h.imp (fun h => List.contains_iff_mem.mp h) fun h => ?_
  simp only [Language.binds, Bool.and_eq_true, Bool.or_eq_true, beq_iff_eq] at h
  exact ⟨h.1.2, h.2⟩

/-- **A type stands at the beginning of a line, and its text begins with a head.** -/
theorem exists_headed {source : String} {found : List FlatSymbol} (h : symbols source = .ok found)
    {s : FlatSymbol} (hs : s ∈ found)
    (htype : isTypeLike Language.typescript.id s.kind (textIn source.toList s.span) = true) :
    ∃ before front rest, Headed source.toList s before front rest := by
  have hscript : Language.typescript.isScript = true := rfl
  have hkind := kind_of_isTypeLike hscript htype
  have hmember : ¬(s.kind = .method ∨ s.kind = .constructor) := by
    rintro (heq | heq) <;> simp [heq] at hkind
  obtain ⟨header, hheader, hdeclared⟩ := exists_header_of_symbols h hs
  obtain ⟨before, front, body, tail, hstands⟩ :=
    exists_stands_of_declaredBy hdeclared fun hclass => hmember hclass.2
  simp only [headers, List.mem_cons, List.not_mem_nil, or_false] at hheader
  rcases hheader with rfl | rfl | rfl | rfl | rfl | rfl
  · -- A function is no type.
    rcases kind_of_declaredBy (by decide +kernel) hdeclared with heq | heq
    · simp [heq] at hkind
    · exact absurd heq hmember
  · exact hstands.exists_headed_of_name (by decide +kernel) (by simp [typeHeads, classHeader])
      (by decide +kernel)
  · exact hstands.exists_headed_of_name (by decide +kernel) (by simp [typeHeads, interfaceHeader])
      (by decide +kernel)
  · exact hstands.exists_headed_of_name (by decide +kernel) (by simp [typeHeads, enumHeader])
      (by decide +kernel)
  · exact hstands.exists_headed_of_alias
  · -- A bound arrow function is given as a variable or constant, and its text is no type alias.
    have hother : ¬(Binding.typeAlias.matchesStart (textIn source.toList s.span) = true) := by
      rw [matchesStart_iff isPlain_typeAlias]
      exact Binding.not_typeAlias_of_arrowFunction
        (starts_arrowFunction (exists_text_of_declared (by decide) hdeclared))
    rcases hkind with hkind | ⟨-, halias⟩
    · obtain ⟨found, -, hs⟩ := List.mem_flatMap.mp hdeclared
      obtain ⟨kind', rfl, hkind'⟩ := (own_or_member_of_mem_declared hs).resolve_right (by simp)
      rcases hkind' with rfl | ⟨rfl, -⟩ <;> simp [symbolAt] at hkind
    · exact absurd halias hother

/-! ### Expanding a type -/

variable {source : List Char} {s : FlatSymbol} {before front rest : List Char}

/-- The lines of a source in which a type has its head on one line. -/
theorem Headed.exists_lines (h : Headed source s before front rest) (hfront : '\n' ∉ front) :
    ∃ prior line later, lines source = prior ++ (front ++ line) :: later ∧
      unlines ((front ++ line) :: later) = front ++ rest ∧ s.span.start.line = prior.length := by
  obtain ⟨prior, hprior⟩ := exists_lines_of_lineStart h.lineStart
  obtain ⟨line, later, hrest⟩ := exists_lines_eq_cons rest
  have hone : lines front = [] ++ [front] := splitOn_of_not_mem hfront
  have hhere : lines (front ++ rest) = [] ++ (front ++ line) :: later := lines_append hone hrest
  refine ⟨prior, line, later, ?_, ?_, ?_⟩
  · rw [h.source_eq, lines_append hprior hhere]
    rfl
  · rw [← List.nil_append ((front ++ line) :: later), ← hhere, unlines_lines]
  · rw [h.start_eq, h.source_eq, positionOfOffset_append hprior]

theorem IsHead.trimEnd_append {name : List Char} (h : IsHead front name) (u : List Char) :
    trimEnd (front ++ u) = front ++ trimEnd u := by
  obtain ⟨before, c, rfl, hc⟩ := h.exists_concat
  rw [List.append_assoc, List.singleton_append, Text.trimEnd_append hc, List.append_assoc,
    List.singleton_append]

theorem IsHead.trim_append {name : List Char} (h : IsHead front name) (u : List Char) :
    trim (front ++ u) = trimEnd (front ++ u) := by
  obtain ⟨words, keyword, hhead, -⟩ := h.exists_headWords
  obtain ⟨c, more, heq, hc⟩ := (hhead.beginsWord u).beginsWord fun _ h => h
  rw [trim, heq, trimStart_cons_of_not_blank more (isBlank_of_beginsWord ⟨c, more, rfl, hc⟩ c rfl)]

theorem IsHead.ne_nil {name : List Char} (h : IsHead front name) : front ≠ [] := by
  obtain ⟨before, c, rfl, -⟩ := h.exists_concat
  simp

/-- Whatever is returned of a type's text declares its name. -/
theorem Headed.declaredName?_eq (h : Headed source s before front rest) {u : List Char}
    (hu : u <+: rest) : declaredName? (trimEnd (front ++ u)) = some s.name.toList := by
  obtain ⟨tail, hrest⟩ := (prefix_trimEnd u).trans hu
  rw [h.isHead.trimEnd_append]
  refine declaredName?_of_head h.isHead fun c hc => h.rest_head c ?_
  rw [← hrest]
  exact List.mem_head?_append_of_mem_head? hc

/-- A text that is cut at the end of a line still has the head with which its first line begins. -/
theorem exists_append_of_cut {front rest raw tail : List Char} (h : front ++ rest = raw ++ tail)
    (htail : ∀ c ∈ tail.head?, c = '\n') (hfront : '\n' ∉ front) :
    ∃ u, raw = front ++ u ∧ u <+: rest := by
  rcases List.append_eq_append_iff.mp h with ⟨u, rfl, hrest⟩ | ⟨u, rfl, htailEq⟩
  · exact ⟨u, rfl, tail, hrest.symm⟩
  · cases u with
    | nil => exact ⟨[], by simp, List.nil_prefix⟩
    | cons c u =>
      have hc : c = '\n' := htail c (by rw [htailEq]; rfl)
      exact absurd (by simp [hc]) hfront

theorem firstWord_append_of_cut {raw tail : List Char} (hraw : allBlank raw = false)
    (htail : ∀ c ∈ tail.head?, c = '\n') : firstWord (raw ++ tail) = firstWord raw := by
  cases tail with
  | nil => rw [List.append_nil]
  | cons c tail => exact firstWord_append_cons hraw (by rw [htail c rfl]; decide) tail

/-- Whether the search upwards from a type of which the head is given comes back with the type: it is no
constant enumeration or stands on the first line; or no line between the first and its own declares a type
and the text begins as the head of a file does, so that the type's own text stands in. -/
def ComesBack (source : List Char) (s : FlatSymbol) (front : List Char) : Prop :=
  ¬constEnumHead.Reads front [s.name.toList] ∨ s.span.start.line = 0 ∨
    (∀ n : Nat, 0 < n → n < s.span.start.line →
      declarationLine.matchesStart ((lines source).getD n []) = false) ∧
    headerMarkers.contains (String.ofList (firstWord source)) = true

theorem comesBack_iff {front : List Char} (hconst : constEnumHead.Reads front [s.name.toList])
    (hline : s.span.start.line ≠ 0) : ComesBack source s front ↔
      (∀ n : Nat, 0 < n → n < s.span.start.line →
        declarationLine.matchesStart ((lines source).getD n []) = false) ∧
      headerMarkers.contains (String.ofList (firstWord source)) = true := by
  refine ⟨fun hback => ?_, fun hback => .inr (.inr hback)⟩
  rcases hback with hplain | hzero | hback
  · exact absurd hconst hplain
  · exact absurd hzero hline
  · exact hback

/-- Where the search upwards from a type stops. -/
theorem Headed.expand (h : Headed source s before front rest) (hfront : '\n' ∉ front) :
    (ComesBack source s front → ∃ declaration, expand? source s.span .brace = some declaration ∧
      declaration.span.start.line = s.span.start.line ∧
      declaredName? declaration.text = some s.name.toList) ∧
    (¬ComesBack source s front → ∃ declaration, expand? source s.span .brace = some declaration ∧
      declaration.span.start.line < s.span.start.line) := by
  obtain ⟨prior, line, later, hlines, hrest, hline⟩ := h.exists_lines hfront
  have hlt : prior.length < (lines source).length := by
    rw [hlines, List.length_append, List.length_cons]
    omega
  have hown : (lines source).getD prior.length [] = front ++ line := by
    rw [hlines, List.getD_eq_getElem?_getD]
    simp
  have hdeclares := matchesStart_declarationLine_of_head h.isHead line
  rw [← hown] at hdeclares
  obtain ⟨stop, raw, tail, hraw, htail, hfirst, hblank, hexpand⟩ :=
    exists_expand?_brace hline hlt (hline ▸ h.start_le)
  obtain ⟨hstops, hpassed⟩ := nearestDeclaration_spec (lines source) prior.length
  have hnear := nearestDeclaration_le (lines source) prior.length
  have hblank : allBlank raw = false := hblank (by rw [hown]; exact (h.isHead.plain line).1)
  generalize nearestDeclaration (lines source) prior.length = first at *
  rw [hblank, Bool.not_false, Bool.true_and] at hexpand
  rcases Nat.lt_or_eq_of_le hnear with hbefore | rfl
  · -- The line of the type has been passed over, so it is that of a constant enumeration.
    have hconst : constEnumHead.Reads front [s.name.toList] := by
      by_contra hplain
      have hnone := hpassed prior.length hbefore (Nat.le_refl _)
      rw [hdeclares.mpr hplain] at hnone
      cases hnone
    rw [comesBack_iff hconst (by omega)]
    rcases Nat.eq_zero_or_pos first with rfl | hpositive
    · have hword : firstWord source = firstWord raw := by
        rw [List.drop_zero, unlines_lines] at hraw
        rw [hraw]
        exact firstWord_append_of_cut hblank htail
      rw [hword]
      cases hmarker : headerMarkers.contains (String.ofList (firstWord raw)) with
      | true =>
        rw [hmarker, Bool.not_true, if_neg Bool.false_ne_true] at hexpand
        obtain ⟨more, hmore, htext⟩ := h.text
        rw [htext, h.isHead.trim_append, if_neg (by simp [h.isHead.trimEnd_append, h.isHead.ne_nil])]
          at hexpand
        refine ⟨fun _ => ⟨_, hexpand, rfl, h.declaredName?_eq hmore⟩, fun hnot => ?_⟩
        refine absurd ⟨fun n hn hle => hpassed n hn (by omega), rfl⟩ hnot
      | false =>
        rw [hmarker, Bool.not_false, if_pos rfl] at hexpand
        refine ⟨fun hboth => absurd hboth.2 Bool.false_ne_true, fun _ => ⟨_, hexpand, ?_⟩⟩
        show ((0 : Nat) : Int) < s.span.start.line
        omega
    · have hdeclared := hstops.resolve_left (Nat.ne_of_gt hpositive)
      refine ⟨fun hboth => ?_, fun _ => ?_⟩
      · have hnone := hboth.1 first hpositive (by omega)
        rw [hdeclared] at hnone
        cases hnone
      · have hstarts := (matchesStart_declarationLine_iff.mp hdeclared).mono hfirst
        rw [(plain_of_declarationLine hstarts).2, Bool.not_false, if_pos rfl] at hexpand
        refine ⟨_, hexpand, ?_⟩
        show (first : Int) < s.span.start.line
        omega
  · rw [hlines, List.drop_left, hrest] at hraw
    obtain ⟨u, rfl, hu⟩ := exists_append_of_cut hraw htail hfront
    rw [(h.isHead.plain u).2, Bool.not_false, if_pos rfl] at hexpand
    refine ⟨fun _ => ⟨_, hexpand, hline.symm, h.declaredName?_eq hu⟩, fun hnot => ?_⟩
    refine absurd ?_ hnot
    rcases hstops with hzero | hdeclared
    · exact .inr (.inl (by omega))
    · exact .inl (hdeclares.mp hdeclared)

/-- **Expanding a type of a script.** Its text begins with a head. If the head is on one line, the
declaration that is returned begins on the line of the type and declares its name where the search upwards
comes back with the type; elsewhere, which takes a constant enumeration, it begins on an earlier line. -/
theorem expand_type {source : String} {found : List FlatSymbol} (h : symbols source = .ok found)
    {s : FlatSymbol} (hs : s ∈ found)
    (htype : isTypeLike Language.typescript.id s.kind (textIn source.toList s.span) = true) :
    (∃ front, IsHead front s.name.toList ∧ front <+: textIn source.toList s.span) ∧
    ∀ front, IsHead front s.name.toList → front <+: textIn source.toList s.span → '\n' ∉ front →
      (ComesBack source.toList s front → ∃ declaration,
        expand? source.toList s.span (languageFamily Language.typescript.id) = some declaration ∧
        declaration.span.start.line = s.span.start.line ∧
        declaredName? declaration.text = some s.name.toList) ∧
      (¬ComesBack source.toList s front → ∃ declaration,
        expand? source.toList s.span (languageFamily Language.typescript.id) = some declaration ∧
        declaration.span.start.line < s.span.start.line) := by
  obtain ⟨before, front, rest, hheaded⟩ := exists_headed h hs htype
  obtain ⟨more, -, htext⟩ := hheaded.text
  refine ⟨⟨front, hheaded.isHead, more, htext.symm⟩, fun front' hhead hbegins hfront => ?_⟩
  obtain ⟨more', htext'⟩ := hbegins
  obtain ⟨rfl, -⟩ := hheaded.isHead.unique hhead (htext.symm.trans htext'.symm)
  exact hheaded.expand hfront

/-- A pattern that matches all of a text reads it. -/
theorem reads_of_matchAt {p : Pattern} {s : List Char} {captured : List (List Char)}
    (h : (p.matchAt (.start s)).map (fun stop => (stop.rest, stop.captured.reverse)) =
      some ([], captured)) : p.Reads s captured := by
  obtain ⟨stop, hstop, heq⟩ := Option.map_eq_some_iff.mp h
  obtain ⟨hrest, rfl⟩ := Prod.mk.inj heq
  obtain ⟨t, hreads, hs, -⟩ := exists_reads_of_matchAt (show p.matchAt (.after [] s) = some stop from hstop)
  rw [hrest, List.append_nil] at hs
  rwa [hs]

/-- An interface and an exported enumeration below it. -/
def exportedEnumText : String := "interface A \x7b\n\x7d\nexport enum E \x7b\n  X\n\x7d\n"

/-- The enumeration of that source. -/
def exportedEnum : FlatSymbol := ⟨"E", .enum, .of 2 0 4 1⟩

/-- The enumeration is expanded to itself. -/
theorem expand_exportedEnum :
    symbols exportedEnumText = .ok [⟨"A", .interface, .of 0 0 1 1⟩, exportedEnum] ∧
    isTypeLike Language.typescript.id exportedEnum.kind
      (textIn exportedEnumText.toList exportedEnum.span) = true ∧
    (IsHead "export enum E".toList exportedEnum.name.toList ∧
      "export enum E".toList <+: textIn exportedEnumText.toList exportedEnum.span ∧
      '\n' ∉ "export enum E".toList ∧
      ComesBack exportedEnumText.toList exportedEnum "export enum E".toList) ∧
    ∃ declaration, expand? exportedEnumText.toList exportedEnum.span
        (languageFamily Language.typescript.id) = some declaration ∧
      declaration.span.start.line = exportedEnum.span.start.line ∧
      declaredName? declaration.text = some exportedEnum.name.toList := by
  have hfound : symbols exportedEnumText = .ok [⟨"A", .interface, .of 0 0 1 1⟩, exportedEnum] :=
    symbols_eq_of_collect (by decide +kernel) (by decide +kernel) (by decide +kernel)
  have htype : isTypeLike Language.typescript.id exportedEnum.kind
      (textIn exportedEnumText.toList exportedEnum.span) = true := by decide +kernel
  have hreads : enumHeader.Reads "export enum E".toList [['E']] := reads_of_matchAt (by decide +kernel)
  have hhead : IsHead "export enum E".toList exportedEnum.name.toList :=
    ⟨enumHeader, by simp [typeHeads], hreads⟩
  have hbegins : "export enum E".toList <+: textIn exportedEnumText.toList exportedEnum.span := by
    decide +kernel
  have hback : ComesBack exportedEnumText.toList exportedEnum "export enum E".toList := by
    refine .inl ((matchesStart_declarationLine_of_head hhead []).mp ?_)
    decide +kernel
  exact ⟨hfound, htype, ⟨hhead, hbegins, by decide, hback⟩,
    ((expand_type hfound (by simp) htype).2 _ hhead hbegins (by decide)).1 hback⟩

/-- An interface and a constant enumeration below it. -/
def constEnumText : String := "interface A \x7b\n\x7d\nconst enum E \x7b\n  X\n\x7d\n"

/-- The enumeration of that source. -/
def constEnum : FlatSymbol := ⟨"E", .enum, .of 2 0 4 1⟩

/-- **A constant enumeration is not expanded to itself**, although it counts as a type and its head is on
one line: what is returned is the interface above it. -/
theorem expand_constEnum :
    symbols constEnumText = .ok [⟨"A", .interface, .of 0 0 1 1⟩, constEnum] ∧
    isTypeLike Language.typescript.id constEnum.kind
      (textIn constEnumText.toList constEnum.span) = true ∧
    (IsHead "const enum E".toList constEnum.name.toList ∧
      "const enum E".toList <+: textIn constEnumText.toList constEnum.span ∧
      '\n' ∉ "const enum E".toList) ∧
    expand? constEnumText.toList constEnum.span (languageFamily Language.typescript.id) =
      some ⟨"interface A \x7b\n\x7d".toList, .of 0 0 1 1⟩ ∧
    declaredName? "interface A \x7b\n\x7d".toList = some "A".toList := by
  have hfound : symbols constEnumText = .ok [⟨"A", .interface, .of 0 0 1 1⟩, constEnum] :=
    symbols_eq_of_collect (by decide +kernel) (by decide +kernel) (by decide +kernel)
  have hreads : enumHeader.Reads "const enum E".toList [['E']] := reads_of_matchAt (by decide +kernel)
  refine ⟨hfound, by decide +kernel, ⟨?_, by decide +kernel, by decide⟩, by decide +kernel,
    by decide +kernel⟩
  exact ⟨enumHeader, by simp [typeHeads], hreads⟩

end Script

end Vicinity
