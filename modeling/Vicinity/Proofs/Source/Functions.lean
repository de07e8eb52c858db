import Vicinity.Proofs.Source.Declarations
import Vicinity.Proofs.Source.Headers
import Vicinity.Proofs.Source.Scanning

/-!
# Functions reach to the end of their bodies

A function that begins a line ends behind the brace that closes its body, if its literals and comments are
closed, the braces of its body balance, and the brace of its body is the first thing after its parameters
that the search for it stops at.

## What is proved

* `scanCode_header`: the brace of a body is found behind its header.
* `Script.declarationEnd_of_functionText`, `GoSource.declared?_of_functionText`: where a function ends.
* `function_spans_body`: what a function spans.
-/

namespace Vicinity

open Text Text.Pattern

/-- A function of a language at the beginning of a line. Before it comes `before` and after it `after`. Its
literals and comments are closed, the braces of its body balance, and the brace of the body comes soon, with
nothing between it and the parameters that ends a header. -/
structure FunctionText (lexicon : Lexicon) (keyword : String) (inHeader : Char → List Char → Prop)
    (reach : Nat) (source before name params result body after : List Char) : Prop where
  source_eq : source = before ++ ((keyword.toList ++ ' ' :: (name ++ ['('])) ++
    (params ++ ')' :: result ++ '\x7b' :: (body ++ '\x7d' :: after)))
  lineStart : before.getLast?.all (· == '\n') = true
  isWord : IsWord name
  header : ∃ code, Lexed lexicon ('\x7b' :: (body ++ '\x7d' :: after)) code (params ++ ')' :: result) ∧
    ∀ x ∈ code, inHeader x.1 x.2
  body : ∃ code, Lexed lexicon ('\x7d' :: after) code body ∧ Braced (code.map (·.1))
  reach : (params ++ ')' :: result).length < reach

/-- A symbol is reported, and no other one of its kind begins where it does. -/
def Reported (found : List FlatSymbol) (s : FlatSymbol) : Prop :=
  s ∈ found ∧ ∀ s' ∈ found, s'.kind = s.kind → s'.span.start = s.span.start → s' = s

/-- **The brace of a body is found behind its header**, if all the code of the header is passed over. -/
theorem scanCode_header {β : Type} {lexicon : Lexicon} (hlexicon : lexicon.Tells)
    {step : Unit → Nat → Char → List Char → Except β Unit} {code : List (Char × List Char)}
    {header rest : List Char} (h : Lexed lexicon ('\x7b' :: rest) code header)
    (htakes : ∀ x ∈ code, ∀ i, step () i x.1 x.2 = .ok ()) (offset : Nat) {reach : Nat} {found : β}
    (hfound : step () (offset + header.length) '\x7b' rest = .error found)
    (hreach : header.length < reach) :
    scanCode lexicon step (some (offset + reach)) (header ++ '\x7b' :: rest) offset () =
      .error found := by
  have hopen : lexicon.opaqueLength? '\x7b' rest = none :=
    Lexicon.opaqueLength?_of_code hlexicon.opening (by simp)
  obtain ⟨resume, hresume, hscan⟩ := scanCode_go_of_lexed (some (offset + reach)) hlexicon h
    (passes_of_forall htakes) (Nat.le_refl offset)
    (by rintro limit ⟨⟩; omega)
  rw [scanCode, hscan, scanCode_go_code hopen hresume (by rintro limit ⟨⟩; omega), hfound]

namespace Script

/-! ### The span of a function of a script -/

/-- What does not show that a declaration has no body: all but a brace, a semicolon, and a line feed right
before a letter. -/
def InHeader (c : Char) (rest : List Char) : Prop :=
  c ≠ '\x7b' ∧ c ≠ ';' ∧ ¬(c = '\n' ∧ rest.head?.any isLetter = true)

theorem inHeader_of_plain {s : List Char} (h : ∀ c ∈ s, c ≠ '\x7b' ∧ c ≠ ';' ∧ c ≠ '\n') :
    ∀ c ∈ s, ∀ rest, InHeader c rest := by
  intro c hc rest
  obtain ⟨hopen, hsemicolon, hline⟩ := h c hc
  exact ⟨hopen, hsemicolon, fun hnext => hline hnext.1⟩

theorem bodyStep_of_inHeader {c : Char} {rest : List Char} (h : InHeader c rest) (i : Nat) :
    bodyStep () i c rest = .ok () := by
  obtain ⟨hopen, hsemicolon, hline⟩ := h
  rw [bodyStep, if_neg hopen, if_neg]
  simpa [hsemicolon] using hline

variable {source before name params result body after : List Char}

/-- A function ends behind the brace that closes its body. -/
theorem declarationEnd_of_functionText
    (h : FunctionText .script "function" InHeader bodyReach source before name params result body after)
    (offset : Nat) :
    declarationEnd (params ++ ')' :: result ++ '\x7b' :: (body ++ '\x7d' :: after)) offset =
      offset + (params ++ ')' :: result).length + body.length + 2 := by
  obtain ⟨code, hlexed, hheader⟩ := h.header
  obtain ⟨inner, hinner, hbraced⟩ := h.body
  have hopen : bodyStep () (offset + (params ++ ')' :: result).length) '\x7b'
      (body ++ '\x7d' :: after) = .error (some (offset + (params ++ ')' :: result).length)) := rfl
  have hscan := scanCode_header Lexicon.tells_script hlexed
    (fun x hx => bodyStep_of_inHeader (hheader x hx)) offset hopen h.reach
  have hbrace : bodyBrace (params ++ ')' :: result ++ '\x7b' :: (body ++ '\x7d' :: after)) offset =
      some (offset + (params ++ ')' :: result).length) := by
    rw [bodyBrace, hscan]
  rw [declarationEnd, hbrace]
  dsimp only
  rw [Nat.add_sub_cancel_left, List.drop_left, matchingBrace_of_lexed Lexicon.tells_script hinner hbraced]

/-- The header of a function declares that function and nothing else. -/
theorem declared_function (source : List Char) {m : Match} (hcaptured : m.captured = [name]) :
    declared source .function m =
      [symbolAt source name .function m.start (declarationEnd m.stop.rest m.stop.offset)] := by
  unfold declared
  rw [hcaptured]
  split
  · rename_i hmore
    simp at hmore
  · rfl

/-- **A function of a script spans its body**: it ends behind the brace that closes its body, and begins with
its keyword or with the keywords on the lines before that belong to it. -/
theorem exists_function {source : String}
    (h : FunctionText .script "function" InHeader bodyReach source.toList before name params result body
      after) (hsize : source.utf8ByteSize ≤ maxSourceBytes) :
    ∃ found s, symbols source = .ok found ∧ Reported found s ∧ s.name = String.ofList name ∧
      s.kind = .function ∧
      s.span.stop = positionOfOffset source.toList (source.toList.length - after.length : Nat) ∧
      ∃ earlier lead, before = earlier ++ lead ∧ beforeFunction.Reads lead [] ∧
        s.span.start = positionOfOffset source.toList earlier.length := by
  obtain ⟨m, hm, earlier, lead, rfl, hlead, hstart, hcaptured, hrest, hoffset⟩ :=
    exists_mem_findAll_function h.lineStart h.isWord
      (params ++ ')' :: result ++ '\x7b' :: (body ++ '\x7d' :: after))
  rw [← h.source_eq] at hm
  have hstop : declarationEnd m.stop.rest m.stop.offset = source.toList.length - after.length := by
    rw [hrest, declarationEnd_of_functionText h, hoffset, h.source_eq]
    simp only [List.length_append, List.length_cons, List.length_nil]
    omega
  have hdeclared := declared_function source.toList hcaptured
  rw [hstop] at hdeclared
  have hfound : symbols source = .ok ((collect source.toList headers []).mergeSort FlatSymbol.startLe) :=
    if_neg (Nat.not_lt.mpr hsize)
  refine ⟨_, symbolAt source.toList name .function m.start (source.toList.length - after.length), hfound,
    ⟨?_, fun s' hs' hkind hplace => ?_⟩, rfl, rfl, rfl, earlier, lead, rfl, hlead, ?_⟩
  · rw [List.mem_mergeSort]
    refine List.mem_append_left _ (List.mem_flatMap.mpr ⟨m, by simpa using hm, ?_⟩)
    rw [hdeclared]
    exact List.mem_singleton_self _
  · obtain ⟨m', hm', hs'⟩ := List.mem_flatMap.mp (mem_declaredBy_of_function hfound hs' hkind)
    obtain ⟨_, hown, -⟩ := (own_or_member_of_mem_declared hs').resolve_right (by simp)
    have hsame : positionOfOffset source.toList m'.start = positionOfOffset source.toList m.start := by
      rw [hown] at hplace
      exact hplace
    rw [eq_of_start_position hm' hm hsame, hdeclared] at hs'
    exact List.mem_singleton.mp hs'
  · rw [symbolAt, hstart]

end Script

namespace GoSource

/-! ### The span of a Go function -/

/-- What is not the brace of a body. -/
def InHeader (c : Char) (_ : List Char) : Prop := c ≠ '\x7b'

theorem inHeader_of_plain {s : List Char} (h : ∀ c ∈ s, c ≠ '\x7b') : ∀ c ∈ s, ∀ rest, InHeader c rest :=
  fun c hc _ => h c hc

theorem bodyStep_of_inHeader {c : Char} {rest : List Char} (h : InHeader c rest) (i : Nat) :
    bodyStep () i c rest = .ok () := by
  rw [bodyStep, if_neg h]

variable {source before name params result body after : List Char}

/-- A function whose header is found ends behind the brace that closes its body. -/
theorem declared?_of_functionText
    (h : FunctionText .go "func" InHeader bodyReach source before name params result body after)
    {m : Match} (hcaptured : m.captured = [name])
    (hrest : m.stop.rest = params ++ ')' :: result ++ '\x7b' :: (body ++ '\x7d' :: after))
    (hoffset : m.stop.offset = (before ++ ("func".toList ++ ' ' :: (name ++ ['(']))).length)
    (hbefore : m.stop.before = some '(') :
    declared? source .function m = some ⟨String.ofList name, .function,
      positionOfOffset source m.start, positionOfOffset source (source.length - after.length : Nat)⟩ := by
  obtain ⟨code, hlexed, hheader⟩ := h.header
  obtain ⟨inner, hinner, hbraced⟩ := h.body
  have hopen : bodyStep () (m.stop.offset + (params ++ ')' :: result).length) '\x7b'
      (body ++ '\x7d' :: after) = .error (m.stop.offset + (params ++ ')' :: result).length) := rfl
  have hscan := scanCode_header Lexicon.tells_go hlexed
    (fun x hx => bodyStep_of_inHeader (hheader x hx)) m.stop.offset hopen h.reach
  have hbrace : bodyBrace m.stop = some (m.stop.offset + (params ++ ')' :: result).length) := by
    rw [bodyBrace, if_neg (by rw [hbefore]; decide), hrest, hscan]
  have hopening : source.drop (m.stop.offset + (params ++ ')' :: result).length) =
      '\x7b' :: (body ++ '\x7d' :: after) := by
    have hcut : source = before ++ ("func".toList ++ ' ' :: (name ++ ['('])) ++
        (params ++ ')' :: result) ++ '\x7b' :: (body ++ '\x7d' :: after) := by
      rw [h.source_eq]
      simp only [List.append_assoc]
    rw [hcut, hoffset, ← List.length_append, List.drop_left]
  have hstop : m.stop.offset + (params ++ ')' :: result).length + body.length + 1 + 1 =
      source.length - after.length := by
    rw [h.source_eq, hoffset]
    simp only [List.length_append, List.length_cons, List.length_nil]
    omega
  rw [declared?, hbrace, Option.map_some]
  dsimp only
  rw [hopening, matchingBrace_of_lexed Lexicon.tells_go hinner hbraced, hcaptured]
  dsimp only
  rw [← hstop]
  rfl

/-- Every symbol comes from a match of one of the headers. -/
theorem exists_match_of_mem_collect {headers : List (Pattern × SymbolKind)} {claimed : List Nat}
    {s : FlatSymbol} (h : s ∈ collect source headers claimed) :
    ∃ header ∈ headers, ∃ m ∈ header.1.findAll source, declared? source header.2 m = some s := by
  induction headers generalizing claimed with
  | nil => cases h
  | cons header more ih =>
    rcases List.mem_append.mp h with h | h
    · obtain ⟨x, hx, rfl⟩ := List.mem_map.mp h
      obtain ⟨m, hm, hx⟩ := List.mem_filterMap.mp hx
      split at hx
      · cases hx
      · obtain ⟨s, hs, rfl⟩ := Option.map_eq_some_iff.mp hx
        exact ⟨header, List.mem_cons_self, m, hm, hs⟩
    · obtain ⟨other, hother, hs⟩ := ih h
      exact ⟨other, List.mem_cons_of_mem _ hother, hs⟩

/-- A function comes from a match of the header of a function, and begins with it. -/
theorem exists_match_of_function {s : FlatSymbol} (h : s ∈ collect source headers [])
    (hkind : s.kind = .function) : ∃ m ∈ functionHeader.findAll source,
      declared? source .function m = some s ∧ s.span.start = positionOfOffset source m.start := by
  obtain ⟨header, hheader, m, hm, hs⟩ := exists_match_of_mem_collect h
  obtain ⟨brace, -, rfl⟩ := Option.map_eq_some_iff.mp hs
  obtain rfl : header = (functionHeader, .function) := by
    simp only [headers, List.mem_cons, List.not_mem_nil, or_false] at hheader
    rcases hheader with rfl | rfl | rfl | rfl
    · cases hkind
    · rfl
    · cases hkind
    · cases hkind
  exact ⟨m, hm, hs, rfl⟩

/-- What a match of a header declares is collected, if nothing before has claimed where it begins. -/
theorem mem_collect {header : Pattern} {kind : SymbolKind} {m : Match} {s : FlatSymbol}
    {claimed : List Nat} (hm : m ∈ header.findAll source) (hclaimed : m.start ∉ claimed)
    (hs : declared? source kind m = some s) (more : List (Pattern × SymbolKind)) :
    s ∈ collect source ((header, kind) :: more) claimed := by
  refine List.mem_append_left _ (List.mem_map.mpr
    ⟨(m.start, s), List.mem_filterMap.mpr ⟨m, hm, ?_⟩, rfl⟩)
  rw [if_neg (by rwa [List.contains_iff_mem]), hs, Option.map_some]

/-- **A Go function spans its body**: it begins with its keyword and ends behind the brace that closes its
body. -/
theorem exists_function {source : String}
    (h : FunctionText .go "func" InHeader bodyReach source.toList before name params result body after)
    (hopen : NoneOpen before) (hsize : source.utf8ByteSize ≤ maxSourceBytes) :
    ∃ found, symbols source = .ok found ∧ Reported found ⟨String.ofList name, .function,
      positionOfOffset source.toList before.length,
      positionOfOffset source.toList (source.toList.length - after.length : Nat)⟩ := by
  obtain ⟨m, hm, hstart, hcaptured, hrest, hoffset, hbefore⟩ :=
    exists_mem_findAll_function h.lineStart h.isWord hopen
      (params ++ ')' :: result ++ '\x7b' :: (body ++ '\x7d' :: after))
  rw [← h.source_eq] at hm
  have hdeclared := declared?_of_functionText h hcaptured hrest hoffset hbefore
  rw [hstart] at hdeclared
  refine ⟨_, if_neg (Nat.not_lt.mpr hsize), List.mem_mergeSort.mpr (List.mem_append_right _ ?_),
    fun s' hs' hkind hplace => ?_⟩
  swap
  · obtain ⟨m', hm', hs', hbegin⟩ := exists_match_of_function (List.mem_mergeSort.mp hs') hkind
    have hsame : positionOfOffset source.toList m'.start = positionOfOffset source.toList m.start := by
      rw [hstart, ← hbegin, hplace]
    rw [eq_of_start_position hm' hm hsame, hdeclared] at hs'
    exact (Option.some.inj hs').symm
  -- The methods come first, and none of them begins where the function does.
  refine mem_collect hm (fun hclaimed => ?_) hdeclared _
  rw [List.append_nil, List.mem_map] at hclaimed
  obtain ⟨x, hx, hplace⟩ := hclaimed
  obtain ⟨m', hm', hx⟩ := List.mem_filterMap.mp hx
  split at hx
  · cases hx
  · obtain ⟨s, -, rfl⟩ := Option.map_eq_some_iff.mp hx
    rw [h.source_eq] at hm'
    exact start_ne_of_methodHeader h.isWord hm' (hplace.trans hstart)

end GoSource

/-! ### Both languages -/

/-- **A function spans its body.** A function of a script is reported under its name, from its keyword or
from the keywords on the lines before that belong to it, up to behind the brace that closes its body. A
function of a Go source is reported from its keyword up to there, unless a header on the lines before has
got into type parameters. -/
theorem function_spans_body {source : String} {before name params result body after : List Char}
    (hsize : source.utf8ByteSize ≤ maxSourceBytes) :
    (FunctionText .script "function" Script.InHeader Script.bodyReach source.toList before name params
        result body after →
      ∃ found s, Script.symbols source = .ok found ∧ Reported found s ∧ s.name = String.ofList name ∧
        s.kind = .function ∧
        s.span.stop = positionOfOffset source.toList (source.toList.length - after.length : Nat) ∧
        ∃ earlier lead, before = earlier ++ lead ∧ Script.beforeFunction.Reads lead [] ∧
          s.span.start = positionOfOffset source.toList earlier.length) ∧
    (FunctionText .go "func" GoSource.InHeader GoSource.bodyReach source.toList before name params
        result body after →
      GoSource.NoneOpen before →
      ∃ found, GoSource.symbols source = .ok found ∧ Reported found ⟨String.ofList name, .function,
        positionOfOffset source.toList before.length,
        positionOfOffset source.toList (source.toList.length - after.length : Nat)⟩) :=
  ⟨fun h => Script.exists_function h hsize, fun h hopen => GoSource.exists_function h hopen hsize⟩

theorem forall_mem_of_all {p : Char → Prop} [DecidablePred p] {s : List Char}
    (h : s.all (fun c => decide (p c)) = true) : ∀ c ∈ s, p c :=
  fun c hc => of_decide_eq_true (List.all_eq_true.mp h c hc)

/-- A header without quotes and slashes. -/
theorem exists_lexed_header {lexicon : Lexicon} {inHeader : Char → List Char → Prop} {s : List Char}
    (hplain : ∀ c ∈ s, ¬lexicon.IsQuote c ∧ c ≠ '/') (hs : ∀ c ∈ s, ∀ rest, inHeader c rest)
    (follows : List Char) :
    ∃ code, Lexed lexicon follows code s ∧ ∀ x ∈ code, inHeader x.1 x.2 := by
  obtain ⟨code, hlexed, rfl⟩ := exists_lexed_of_plain hplain follows
  exact ⟨code, hlexed, fun x hx => hs _ (List.mem_map_of_mem hx) _⟩

/-- Code with one literal in it and no brace besides. -/
theorem exists_lexed_quoted {lexicon : Lexicon} {quote : Char} {s t u : List Char}
    (hquote : quote ∈ lexicon.escaped) (ht : Lexicon.QuotedBody quote t)
    (hplain : ∀ c ∈ s ++ u, ¬lexicon.IsQuote c ∧ c ≠ '/')
    (hbraces : ∀ c ∈ s ++ u, c ≠ '\x7b' ∧ c ≠ '\x7d') (follows : List Char) :
    ∃ code, Lexed lexicon follows code (s ++ (quote :: (t ++ [quote]) ++ u)) ∧
      Braced (code.map (·.1)) := by
  obtain ⟨hs, hu⟩ := List.forall_mem_append.mp hplain
  obtain ⟨code, hcode, rfl⟩ := exists_lexed_of_plain hs (quote :: (t ++ [quote]) ++ u ++ follows)
  obtain ⟨code', hcode', rfl⟩ := exists_lexed_of_plain hu follows
  refine ⟨code ++ code', hcode.append (.closed (.escaped hquote ht) hcode'), ?_⟩
  rw [List.map_append]
  exact braced_of_plain hbraces

/-- A function of a script with a brace in a literal. -/
def scriptText : String := "function f(a) \x7b\n  return \"\x7d\"\n\x7d\n"

/-- The same function of a Go source, with a result. -/
def goText : String := "func f(a int) string \x7b\n\treturn \"\x7d\"\n\x7d\n"

theorem functionText_scriptText : FunctionText .script "function" Script.InHeader Script.bodyReach
    scriptText.toList [] ['f'] ['a'] [' '] "\n  return \"\x7d\"\n".toList ['\n'] where
  source_eq := by decide
  lineStart := rfl
  isWord := isWord_of_all (by decide) (by decide)
  header := exists_lexed_header (forall_mem_of_all (by decide))
    (Script.inHeader_of_plain (forall_mem_of_all (by decide))) _
  body := exists_lexed_quoted (s := "\n  return ".toList) (u := ['\n']) (by decide)
    (.plain (by decide) (by decide) .nil) (forall_mem_of_all (by decide))
    (forall_mem_of_all (by decide)) _
  reach := by decide

theorem functionText_goText : FunctionText .go "func" GoSource.InHeader GoSource.bodyReach
    goText.toList [] ['f'] "a int".toList " string ".toList "\n\treturn \"\x7d\"\n".toList ['\n'] where
  source_eq := by decide
  lineStart := rfl
  isWord := isWord_of_all (by decide) (by decide)
  header := exists_lexed_header (forall_mem_of_all (by decide))
    (GoSource.inHeader_of_plain (forall_mem_of_all (by decide))) _
  body := exists_lexed_quoted (s := "\n\treturn ".toList) (u := ['\n']) (by decide)
    (.plain (by decide) (by decide) .nil) (forall_mem_of_all (by decide))
    (forall_mem_of_all (by decide)) _
  reach := by decide

/-- The two functions end in their third lines. -/
theorem functions_span_bodies :
    (∃ found s, Script.symbols scriptText = .ok found ∧ Reported found s ∧ s.name = "f" ∧
      s.kind = .function ∧ s.span.stop = ⟨2, 1⟩) ∧
    ∃ found, GoSource.symbols goText = .ok found ∧ Reported found ⟨"f", .function, .of 0 0 2 1⟩ := by
  refine ⟨?_, ?_⟩
  · obtain ⟨found, s, hfound, hs, hname, hkind, hstop, -⟩ :=
      (function_spans_body (by decide)).1 functionText_scriptText
    exact ⟨found, s, hfound, hs, hname, hkind, hstop⟩
  · refine (function_spans_body (by decide)).2 functionText_goText fun earlier lead hnil _ hopen => ?_
    obtain ⟨-, rfl⟩ := List.append_eq_nil_iff.mp hnil.symm
    exact absurd (List.prefix_nil.mp (GoSource.prefix_of_openHeader hopen)) (by decide)

/-- A function whose parameters are as long as the search for its body reaches. -/
def longText (keyword : String) : String :=
  String.ofList (keyword.toList ++ " f(".toList ++ List.replicate 500 'a' ++ ") \x7b\n\x7d\n".toList)

theorem functionText_longText {lexicon : Lexicon} {inHeader : Char → List Char → Prop}
    (hquotes : ∀ c ∈ ['a', ')', ' ', '\n'], ¬lexicon.IsQuote c)
    (hheader : ∀ c ∈ ['a', ')', ' '], ∀ rest, inHeader c rest) (keyword : String) :
    FunctionText lexicon keyword inHeader 600 (longText keyword).toList [] ['f']
      (List.replicate 500 'a') [' '] ['\n'] ['\n'] := by
  have hchars : ∀ c ∈ List.replicate 500 'a' ++ ')' :: [' '], c ∈ ['a', ')', ' '] := by
    refine List.forall_mem_append.mpr ⟨fun c hc => ?_, forall_mem_of_all (by decide)⟩
    rw [List.eq_of_mem_replicate hc]
    decide
  have hplain : ∀ c ∈ List.replicate 500 'a' ++ ')' :: [' '], ¬lexicon.IsQuote c ∧ c ≠ '/' :=
    fun c hc => ⟨hquotes c (List.mem_append_left ['\n'] (hchars c hc)), by
      have hslash : ∀ c ∈ ['a', ')', ' '], c ≠ '/' := forall_mem_of_all (by decide)
      exact hslash c (hchars c hc)⟩
  constructor
  · rw [longText, String.toList_ofList]
    simp only [List.append_assoc, List.cons_append, List.nil_append]
    rfl
  · rfl
  · exact isWord_of_all (by decide) (by decide)
  · exact exists_lexed_header hplain (fun c hc => hheader c (hchars c hc)) _
  · obtain ⟨code, hlexed, hcode⟩ := exists_lexed_of_plain (s := ['\n'])
      (by simpa using hquotes '\n' (by decide)) ('\x7d' :: ['\n'])
    exact ⟨code, hlexed, hcode ▸ braced_of_plain (forall_mem_of_all (by decide))⟩
  · rw [List.length_append, List.length_replicate]
    decide

/-- **Not every function spans its body.** One whose parameters hold a brace ends where this is closed, and
one with long parameters ends with its first line or is not reported. In a script a header ends with a semicolon or a line feed before a letter, a name has no dollar
sign in it, a quote in a regular expression begins a literal, and templates do not nest. In a Go source a
header may seem to begin in a comment and to go on in the function after it. -/
theorem functions_stop_short :
    Script.symbols "function f(\x7ba\x7d) \x7b\n return a\n\x7d\n" =
      .ok [⟨"f", .function, .of 0 0 0 14⟩] ∧
    GoSource.symbols "func Print(v interface\x7b\x7d) \x7b\n\treturn\n\x7d\n" =
      .ok [⟨"Print", .function, .of 0 0 0 24⟩] ∧
    (FunctionText .script "function" Script.InHeader 600 (longText "function").toList [] ['f']
      (List.replicate 500 'a') [' '] ['\n'] ['\n'] ∧
      Script.symbols (longText "function") = .ok [⟨"f", .function, .of 0 0 0 514⟩]) ∧
    (FunctionText .go "func" GoSource.InHeader 600 (longText "func").toList [] ['f']
      (List.replicate 500 'a') [' '] ['\n'] ['\n'] ∧ GoSource.symbols (longText "func") = .ok []) ∧
    Script.symbols "function f(\na) \x7b\n\x7d\n" = .ok [⟨"f", .function, .of 0 0 0 11⟩] ∧
    Script.symbols "function f(a;) \x7b\n\x7d\n" = .ok [⟨"f", .function, .of 0 0 0 16⟩] ∧
    Script.symbols "function $f(a) \x7b\n\x7d\n" = .ok [] ∧
    Script.symbols "function f() \x7b\n  return /\"/\n\x7d\nlet x = 1\n" =
      .ok [⟨"f", .function, .of 0 0 4 0⟩] ∧
    Script.symbols "function f() \x7b\n  return `$\x7b`\x7d`\x7d`\n\x7d\n" =
      .ok [⟨"f", .function, .of 0 0 1 16⟩] ∧
    GoSource.symbols "/*\nfunc X[\n*/\nfunc f() \x7b\n\ta[0](1)\n\x7d\n" = .ok [] := by
  have htext : ∀ keyword, (longText keyword).toList =
      keyword.toList ++ " f(".toList ++ List.replicate 500 'a' ++ ") \x7b\n\x7d\n".toList :=
    fun _ => String.toList_ofList
  have hscript : Script.symbols (longText "function") = .ok [⟨"f", .function, .of 0 0 0 514⟩] := by
    refine Script.symbols_eq_of_collect (by decide +kernel) ?_ (by simp)
    rw [htext]
    decide +kernel
  have hgo : GoSource.symbols (longText "func") = .ok [] := by
    have hsize : ¬(longText "func").utf8ByteSize > maxSourceBytes := by decide +kernel
    rw [GoSource.symbols, if_neg hsize, htext]
    decide +kernel
  exact ⟨by decide +kernel, by decide +kernel,
    ⟨functionText_longText (forall_mem_of_all (by decide))
      (Script.inHeader_of_plain (forall_mem_of_all (by decide))) _, hscript⟩,
    ⟨functionText_longText (forall_mem_of_all (by decide))
      (GoSource.inHeader_of_plain (forall_mem_of_all (by decide))) _, hgo⟩,
    by decide +kernel, by decide +kernel, by decide +kernel, by decide +kernel, by decide +kernel,
    by decide +kernel⟩

end Vicinity
