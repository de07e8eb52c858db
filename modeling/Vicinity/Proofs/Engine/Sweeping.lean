import Vicinity.Engine
import Vicinity.Proofs.Enclosing.Locating
import Vicinity.Provider.Tables

/-!
# What a sweep finds

A sweep lists the functions of a file and then looks for each of them again, by its start. Spans have
inclusive ends, so where one function ends and the next begins both are found; and the size of a span
over several lines does not tell where it starts in its line. Another function may therefore be found
in place of the one that was listed: one that ends where this one starts, or one around it.

## What is proved

* `Outline.LaidOut`: the outlines of well-formed documents.
* `Outline.Hides`: which functions are found in place of which others.
* `Outline.Hides.touches_or_sameLine`: the arrangements in which this happens.
* `Outline.LaidOut.locate_start_iff`: a function is found again exactly if no function hides it.
* `Engine.sweepFile_functions`: what the sweep of a file finds.
* `Engine.sweepFile_complete_iff`: the sweep of a file has a bundle for each of its functions exactly if
  none of them is hidden.
-/

namespace Vicinity

/-! ### Arrangements of spans -/

namespace Span

variable {s t : Span}

/-- One span lies in the other one, and they start at different places. -/
def Nested (s t : Span) : Prop := s.start ≠ t.start ∧ (s.covers t ∨ t.covers s)

/-- One span ends where the other one begins, or before. -/
def Separate (s t : Span) : Prop := s.stop.le t.start ∨ t.stop.le s.start

/-- The span starts before another one and reaches to its end. -/
def Surrounds (s t : Span) : Prop := s.start.lt t.start ∧ t.stop.le s.stop

instance : Decidable (s.Nested t) := inferInstanceAs (Decidable (_ ∧ _))
instance : Decidable (s.Separate t) := inferInstanceAs (Decidable (_ ∨ _))
instance : Decidable (s.Surrounds t) := inferInstanceAs (Decidable (_ ∧ _))

theorem Nested.symm (h : s.Nested t) : t.Nested s := ⟨h.1.symm, h.2.symm⟩

theorem Separate.symm (h : s.Separate t) : t.Separate s := Or.symm h

/-- A span that contains the start of another one ends there or is around it. -/
theorem contains_start_iff (hs : s.start.lt s.stop) (ht : t.start.lt t.stop)
    (h : s.Nested t ∨ s.Separate t) :
    s.contains t.start ↔ s.stop = t.start ∨ s.Surrounds t := by
  obtain ⟨⟨a, b⟩, c, d⟩ := s
  obtain ⟨⟨a', b'⟩, c', d'⟩ := t
  simp only [Nested, Separate, Surrounds, covers_iff, contains_iff, Position.le_iff,
    Position.lt_iff, Position.mk.injEq, ne_eq] at *
  omega

/-- Different spans of a well-formed document start at different places. -/
theorem start_ne (hs : s.start.lt s.stop) (ht : t.start.lt t.stop)
    (h : s.Nested t ∨ s.Separate t) : s.start ≠ t.start := by
  obtain ⟨⟨a, b⟩, c, d⟩ := s
  obtain ⟨⟨a', b'⟩, c', d'⟩ := t
  simp only [Nested, Separate, covers_iff, contains_iff, Position.le_iff,
    Position.lt_iff, Position.mk.injEq, ne_eq] at *
  omega

end Span

/-! ### Outlines -/

namespace Outline

/-- The outline of a well-formed document: every span ends after its start, and any two of them are
nested or separate. -/
structure LaidOut (outline : Outline) : Prop where
  start_lt : ∀ entry ∈ outline.entries, entry.span.start.lt entry.span.stop
  apart : outline.entries.Pairwise fun a b => a.span.Nested b.span ∨ a.span.Separate b.span

variable (outline : Outline) (doc : Document)

/-- The functions of a document, with the indexes of their entries. -/
def functions : List (Nat × OutlineEntry) :=
  (outline.entries.zipIdx.map fun (entry, i) => (i, entry)).filter fun (_, entry) =>
    outline.qualifies doc.languageId doc.lines false entry

/-- An entry hides another one: it ends where the other one starts or is around it, and it beats the
other one. -/
def Hides (f e : Nat × OutlineEntry) : Prop :=
  (f.2.span.stop = e.2.span.start ∨ f.2.span.Surrounds e.2.span) ∧ Extent.smallest.Beats f e

instance (f e : Nat × OutlineEntry) : Decidable (Hides f e) := inferInstanceAs (Decidable (_ ∧ _))

variable {outline doc}

theorem getElem?_of_mem_functions {e : Nat × OutlineEntry} (he : e ∈ outline.functions doc) :
    outline.entries[e.1]? = some e.2 := by
  obtain ⟨hentry, -⟩ := List.mem_filter.mp he
  obtain ⟨⟨entry, i⟩, hmem, rfl⟩ := List.mem_map.mp hentry
  exact List.mk_mem_zipIdx_iff_getElem?.mp hmem

/-- The entries around a position are the functions that contain it. -/
theorem enclosing_eq_filter (position : Position) :
    outline.enclosing doc position false =
      (outline.functions doc).filter (·.2.span.contains position) := by
  unfold enclosing functions
  rw [List.filter_filter]

theorem mem_enclosing {position : Position} {f : Nat × OutlineEntry} :
    f ∈ outline.enclosing doc position false ↔
      f ∈ outline.functions doc ∧ f.2.span.contains position := by
  rw [enclosing_eq_filter, List.mem_filter]

theorem map_functions (outline : Outline) (doc : Document) :
    (outline.functions doc).map (·.2) =
      outline.entries.filter (outline.qualifies doc.languageId doc.lines false) := by
  have hentries : outline.entries = (outline.entries.zipIdx.map fun (entry, i) => (i, entry)).map
      (·.2) := by
    rw [List.map_map]
    exact (List.zipIdx_map_fst 0 outline.entries).symm
  conv_rhs => rw [hentries, List.filter_map]
  rfl

namespace LaidOut

variable {e f : Nat × OutlineEntry}

theorem start_lt_of_mem (h : outline.LaidOut) (he : e ∈ outline.functions doc) :
    e.2.span.start.lt e.2.span.stop :=
  h.start_lt _ (List.mem_of_getElem? (getElem?_of_mem_functions he))

/-- Two functions are nested or separate. -/
theorem nested_or_separate (h : outline.LaidOut) (he : e ∈ outline.functions doc)
    (hf : f ∈ outline.functions doc) (hne : f ≠ e) :
    f.2.span.Nested e.2.span ∨ f.2.span.Separate e.2.span := by
  obtain ⟨hi, hei⟩ := List.getElem?_eq_some_iff.mp (getElem?_of_mem_functions he)
  obtain ⟨hj, hfj⟩ := List.getElem?_eq_some_iff.mp (getElem?_of_mem_functions hf)
  have hindex : f.1 ≠ e.1 := by
    intro heq
    refine hne (Prod.ext heq ?_)
    rw [← hei, ← hfj]
    simp only [heq]
  have hpairs := List.pairwise_iff_getElem.mp h.apart
  rcases Nat.lt_or_gt_of_ne hindex with hlt | hgt
  · simpa only [hei, hfj] using hpairs f.1 e.1 hj hi hlt
  · rcases hpairs e.1 f.1 hi hj hgt with hnested | hseparate
    · exact .inl (by simpa only [hei, hfj] using hnested.symm)
    · exact .inr (by simpa only [hei, hfj] using hseparate.symm)

/-- Another function that contains the start of one ends there or is around it. -/
theorem contains_start_iff (h : outline.LaidOut) (he : e ∈ outline.functions doc)
    (hf : f ∈ outline.functions doc) (hne : f ≠ e) :
    f.2.span.contains e.2.span.start ↔
      f.2.span.stop = e.2.span.start ∨ f.2.span.Surrounds e.2.span :=
  Span.contains_start_iff (h.start_lt_of_mem hf) (h.start_lt_of_mem he)
    (h.nested_or_separate he hf hne)

/-- The functions of a document have different spans. -/
theorem eq_of_span_eq (h : outline.LaidOut) (he : e ∈ outline.functions doc)
    (hf : f ∈ outline.functions doc) (hspan : f.2.span = e.2.span) : f = e := by
  by_contra hne
  exact Span.start_ne (h.start_lt_of_mem hf) (h.start_lt_of_mem he)
    (h.nested_or_separate he hf hne) (congrArg Span.start hspan)

/-- The functions that hide another one are those that contain its start and beat it. -/
theorem hides_iff (h : outline.LaidOut) (he : e ∈ outline.functions doc)
    (hf : f ∈ outline.functions doc) :
    Hides f e ↔ f.2.span.contains e.2.span.start ∧ Extent.smallest.Beats f e := by
  refine and_congr_left fun hbeats => (h.contains_start_iff he hf ?_).symm
  rintro rfl
  exact hbeats.asymm hbeats

variable {symbols : List Symbol}

/-- **A function is found by its start exactly if no other one hides it.** -/
theorem locate_start_iff (h : (ofSymbols symbols).LaidOut) (root : Option String) (fallback : Bool)
    (he : e ∈ (ofSymbols symbols).functions doc) :
    locate doc symbols e.2.span.start root .smallest false fallback =
        some (doc.unitAt e.2.name e.2.span root) ↔
      ∀ f ∈ (ofSymbols symbols).functions doc, ¬ Hides f e := by
  have hcontains : e.2.span.contains e.2.span.start :=
    Span.contains_iff.mpr ⟨Position.le_refl _, Position.le_of_lt (h.start_lt_of_mem he)⟩
  have hmem := mem_enclosing.mpr ⟨he, hcontains⟩
  rw [locate_smallest (List.ne_nil_of_mem hmem), Option.map_eq_some_iff]
  constructor
  · rintro ⟨c, hfound, hunit⟩ f hf hhides
    obtain ⟨⟨hc, hbeats⟩, -⟩ := ((ofSymbols symbols).findEnclosing_smallest doc).mp hfound
    have hspan : c.2.span = e.2.span := congrArg CodeUnit.span hunit
    obtain rfl := h.eq_of_span_eq he (mem_enclosing.mp hc).1 hspan
    obtain ⟨hstart, hbeaten⟩ := (h.hides_iff he hf).mp hhides
    rcases hbeats f (mem_enclosing.mpr ⟨hf, hstart⟩) with rfl | hbeat
    · exact hbeaten.asymm hbeaten
    · exact hbeat.asymm hbeaten
  · intro hnone
    refine ⟨e, ((ofSymbols symbols).findEnclosing_smallest doc).mpr ⟨⟨hmem, ?_⟩, rfl⟩, rfl⟩
    -- the best entry would hide the function if it were another one
    have hindex := (ofSymbols symbols).pairwise_enclosing doc e.2.span.start false
    obtain ⟨c, hbest⟩ := bestEntry_isSome .smallest hindex (List.ne_nil_of_mem hmem)
    obtain ⟨hc, hbeats⟩ := (bestEntry_eq_some hindex).mp hbest
    rcases hbeats e hmem with rfl | hbeaten
    · exact hbeats
    · obtain ⟨hcf, hstart⟩ := mem_enclosing.mp hc
      exact absurd ((h.hides_iff he hcf).mpr ⟨hstart, hbeaten⟩) (hnone c hcf)

end LaidOut

end Outline

/-! ### Which functions hide others -/

/-- A span around another one is larger, unless both start on one line and end at the same place. -/
theorem Span.Surrounds.size_lt {s t : Span} (h : s.Surrounds t) (hlt : t.start.lt t.stop)
    (hs : s.InWidth) (ht : t.InWidth) :
    t.size < s.size ∨ s.start.line = t.start.line ∧ s.stop = t.stop ∧ s.size = t.size := by
  obtain ⟨⟨a, b⟩, c, d⟩ := s
  obtain ⟨⟨a', b'⟩, c', d'⟩ := t
  obtain ⟨hstart, hstop⟩ := h
  obtain ⟨hs₀, hs₁, hs₂⟩ := hs
  obtain ⟨ht₀, ht₁, ht₂⟩ := ht
  have hweight : Span.lineWeight = 9007199254740992 := by decide
  rw [Position.lt_iff] at hstart hlt
  rw [Position.le_iff] at hstop
  simp only [size, isSingleLine, beq_iff_eq, Position.mk.injEq, hweight] at *
  split_ifs <;> omega

/-- **One function hides another one only if it ends where the other one starts**, or if it is around
the other one with its start on the same line and its end at the same place. -/
theorem Outline.Hides.touches_or_sameLine {f e : Nat × OutlineEntry} (h : Hides f e)
    (hlt : e.2.span.start.lt e.2.span.stop) (hf : f.2.span.InWidth) (he : e.2.span.InWidth) :
    f.2.span.stop = e.2.span.start ∨
      f.2.span.start.line = e.2.span.start.line ∧ f.2.span.stop = e.2.span.stop ∧ f.1 < e.1 := by
  obtain ⟨htouches | haround, hbeats⟩ := h
  · exact .inl htouches
  · simp only [Extent.Beats, Extent.prefers, decide_eq_true_eq] at hbeats
    rcases haround.size_lt hlt hf he with hsize | ⟨hline, hstop, hsize⟩
    · omega
    · exact .inr ⟨hline, hstop, by omega⟩

/-! ### The sweep of a file -/

variable {σ : Type}

/-- The provider answers with the text of a document, which is in the language that its path tells, and
with its symbols. -/
def Provider.Serves (p : Provider σ) (doc : Document) (symbols : List Symbol) (s : σ) : Prop :=
  doc.languageId = languageIdOfPath doc.path ∧ ∃ answer v w, answer.getD [] = symbols ∧
    p.askText doc.path s = (.ok doc.text, v) ∧ p.askSymbols doc.path v = (.ok answer, w)

/-- The listed functions are those of the outline. -/
theorem mem_functionSymbols {doc : Document} {symbols : List Symbol} {listed : String × Span} :
    listed ∈ functionSymbols doc symbols ↔
      ∃ e ∈ (Outline.ofSymbols symbols).functions doc, (e.2.name, e.2.span) = listed := by
  unfold functionSymbols
  rw [List.mem_mergeSort, ← Outline.map_functions, List.map_map, List.mem_map]
  rfl

/-- They are listed as the outline has them if these are in document order. -/
theorem functionSymbols_of_pairwise {doc : Document} {symbols : List Symbol}
    (h : ((Outline.ofSymbols symbols).functions doc).Pairwise fun e f => e.2.span.le f.2.span) :
    functionSymbols doc symbols =
      ((Outline.ofSymbols symbols).functions doc).map fun e => (e.2.name, e.2.span) := by
  unfold functionSymbols
  dsimp only
  rw [← Outline.map_functions, List.map_map]
  exact List.mergeSort_of_pairwise (List.pairwise_map.mpr h)

namespace Engine

variable (resolver : Resolver σ) (root : String) (doc : Document) (symbols : List Symbol)

/-- A sweep has a bundle for each of the listed functions whose start leads to a unit, and it is that
unit's. -/
theorem sweepFunctions_run (listed : List (String × Span)) (s : ResolverState σ) :
    (sweepFunctions resolver root doc symbols listed s).1.map (·.function) =
      listed.filterMap fun function =>
        (locate doc symbols function.2.start (some root) .smallest false true).map some := by
  induction listed generalizing s with
  | nil => rfl
  | cons function more ih =>
    unfold sweepFunctions
    cases hunit : locate doc symbols function.2.start (some root) .smallest false true with
    | none => simpa only [List.filterMap_cons, hunit, Option.map_none] using ih s
    | some unit =>
      simp only [List.filterMap_cons, hunit, Option.map_some, bind, StateT.bind]
      rw [← ih (resolver.typesForFunction doc unit resolver.config.depth s).2]
      rfl

/-- The sweep of a file whose text and symbols are answered is that of its functions. -/
theorem sweepFile_run {path text : String} {answer : Option (List Symbol)} {s : ResolverState σ}
    {v w : σ} (htext : resolver.provider.askText path s.world = (.ok text, v))
    (hsymbols : resolver.provider.askSymbols path v = (.ok answer, w)) :
    sweepFile resolver root path s =
      sweepFunctions resolver root ⟨path, languageIdOfPath path, text⟩ (answer.getD [])
        (functionSymbols ⟨path, languageIdOfPath path, text⟩ (answer.getD [])) ⟨w, s.texts⟩ := by
  unfold sweepFile
  simp only [bind, StateT.bind, ResolverM.ask, htext, hsymbols]

/-- What the sweep of a file finds. -/
theorem sweepFile_functions {doc : Document} {symbols : List Symbol} {s : ResolverState σ}
    (hserves : resolver.provider.Serves doc symbols s.world) :
    (sweepFile resolver root doc.path s).1.map (·.function) =
      (functionSymbols doc symbols).filterMap fun function =>
        (locate doc symbols function.2.start (some root) .smallest false true).map some := by
  obtain ⟨hlanguage, answer, v, w, rfl, htext, hsymbols⟩ := hserves
  have hdoc : doc = ⟨doc.path, languageIdOfPath doc.path, doc.text⟩ := by rw [← hlanguage]
  rw [sweepFile_run resolver root htext hsymbols, ← hdoc, sweepFunctions_run]

/-- The sweep of a file has a bundle of its own for each function exactly if none of them is hidden. -/
theorem sweepFile_complete_iff {doc : Document} {symbols : List Symbol}
    (hlaid : (Outline.ofSymbols symbols).LaidOut) {s : ResolverState σ}
    (hserves : resolver.provider.Serves doc symbols s.world) :
    (sweepFile resolver root doc.path s).1.map (·.function) =
        (functionSymbols doc symbols).map
          (fun listed => some (doc.unitAt listed.1 listed.2 (some root))) ↔
      ∀ e ∈ (Outline.ofSymbols symbols).functions doc,
        ∀ f ∈ (Outline.ofSymbols symbols).functions doc, ¬ Outline.Hides f e := by
  rw [sweepFile_functions resolver root hserves, List.filterMap_eq_map_iff_forall_eq_some]
  constructor
  · intro hfound e he
    refine (hlaid.locate_start_iff (some root) true he).mp ?_
    have hmapped := hfound (e.2.name, e.2.span) (mem_functionSymbols.mpr ⟨e, he, rfl⟩)
    obtain ⟨unit, hunit, heq⟩ := Option.map_eq_some_iff.mp hmapped
    rw [hunit, ← Option.some.inj heq]
  · intro hnone listed hlisted
    obtain ⟨e, he, rfl⟩ := mem_functionSymbols.mp hlisted
    rw [(hlaid.locate_start_iff (some root) true he).mpr (hnone e he), Option.map_some]

/-- **When a sweep handles every function.** In a well-formed document a function is found by its start
exactly if no other one hides it; the sweep of its file has one bundle for each function, which is its
own, exactly if none is hidden; and where columns are not too large, a function hides another one only
if it ends where the other one starts, or if both start on one line and end at the same place. -/
theorem sweep_complete_iff {doc : Document} {symbols : List Symbol}
    (hlaid : (Outline.ofSymbols symbols).LaidOut) :
    (∀ e ∈ (Outline.ofSymbols symbols).functions doc, ∀ root fallback,
      locate doc symbols e.2.span.start root .smallest false fallback =
          some (doc.unitAt e.2.name e.2.span root) ↔
        ∀ f ∈ (Outline.ofSymbols symbols).functions doc, ¬ Outline.Hides f e) ∧
    (∀ (resolver : Resolver σ) root s, resolver.provider.Serves doc symbols s.world →
      ((sweepFile resolver root doc.path s).1.map (·.function) =
          (functionSymbols doc symbols).map
            (fun listed => some (doc.unitAt listed.1 listed.2 (some root))) ↔
        ∀ e ∈ (Outline.ofSymbols symbols).functions doc,
          ∀ f ∈ (Outline.ofSymbols symbols).functions doc, ¬ Outline.Hides f e)) ∧
    ∀ e ∈ (Outline.ofSymbols symbols).functions doc, ∀ f, e.2.span.InWidth → f.2.span.InWidth →
      Outline.Hides f e →
        f.2.span.stop = e.2.span.start ∨
          f.2.span.start.line = e.2.span.start.line ∧ f.2.span.stop = e.2.span.stop ∧ f.1 < e.1 := by
  refine ⟨fun e he root fallback => hlaid.locate_start_iff root fallback he,
    fun resolver root s hserves => sweepFile_complete_iff resolver root hlaid hserves,
    fun e he f hwidth hwidth' hhides => ?_⟩
  exact hhides.touches_or_sameLine (hlaid.start_lt_of_mem he) hwidth' hwidth

/-- The tables that answer with a document and its symbols. -/
def tablesOf (doc : Document) (symbols : List Symbol) : AnswerTables :=
  { files := [(doc.path, doc.text)], symbols := [(doc.path, some symbols)] }

/-- The units whose bundles the sweep of a document gives. -/
def sweptUnits (doc : Document) (symbols : List Symbol) : List (Option CodeUnit) :=
  (sweepFile (.of AnswerTables.provider "/" {}) "/" doc.path ⟨tablesOf doc symbols, []⟩).1.map
    (·.function)

/-- A class with two methods, one of which ends with a function of its own. -/
def members : Document :=
  ⟨"/a.py", "python",
    "class C:\n  def m():\n    def g():\n      pass\n  def n():\n    pass\n"⟩

def memberSymbols : List Symbol :=
  [⟨"C", .class, .of 0 0 5 8,
    [⟨"m", .method, .of 1 2 3 10, [⟨"g", .function, .of 2 4 3 10, []⟩]⟩,
      ⟨"n", .method, .of 4 2 5 8, []⟩]⟩]

/-- Each function of the class is found, also the one inside another one. -/
theorem sweep_members :
    (Outline.ofSymbols memberSymbols).LaidOut ∧
      AnswerTables.provider.Serves members memberSymbols (tablesOf members memberSymbols) ∧
      sweptUnits members memberSymbols =
        (functionSymbols members memberSymbols).map
          fun listed => some (members.unitAt listed.1 listed.2 (some "/")) := by
  have hlaid : (Outline.ofSymbols memberSymbols).LaidOut := ⟨by decide, by decide⟩
  have hserves : AnswerTables.provider.Serves members memberSymbols
      (tablesOf members memberSymbols) :=
    ⟨by decide +kernel, some memberSymbols, _, _, rfl, rfl, rfl⟩
  refine ⟨hlaid, hserves, ?_⟩
  exact ((sweep_complete_iff hlaid).2.1 _ "/" ⟨tablesOf members memberSymbols, []⟩ hserves).mpr
    (by decide +kernel)

/-- Two functions, the second of which starts where the first one ends. -/
def touching : Document :=
  ⟨"/a.ts", "typescript", "function a() \x7b\n\x7dfunction b(foo: Foo) \x7b\n\x7d\n"⟩

def touchingSymbols : List Symbol :=
  [⟨"a", .function, .of 0 0 1 1, []⟩, ⟨"b", .function, .of 1 1 2 1, []⟩]

/-- A function that returns another one, which starts on the same line and ends at the same place. -/
def returning : Document := ⟨"/a.ts", "typescript", "const f = (a) => (b) =>\n  a + b\n"⟩

def returningSymbols : List Symbol :=
  [⟨"f", .function, .of 0 6 1 7, [⟨"g", .function, .of 0 17 1 7, []⟩]⟩]

/-- A sweep can pass a function over, and can handle another one twice in its place. -/
theorem sweep_touching_returning :
    ((Outline.ofSymbols touchingSymbols).LaidOut ∧
      functionSymbols touching touchingSymbols = [("a", .of 0 0 1 1), ("b", .of 1 1 2 1)] ∧
      locate touching touchingSymbols ⟨1, 1⟩ (some "/") .smallest false true = none ∧
      sweptUnits touching touchingSymbols =
        [some (touching.unitAt "a" (.of 0 0 1 1) (some "/"))]) ∧
    (Outline.ofSymbols returningSymbols).LaidOut ∧
      functionSymbols returning returningSymbols = [("f", .of 0 6 1 7), ("g", .of 0 17 1 7)] ∧
      locate returning returningSymbols ⟨0, 17⟩ (some "/") .smallest false true =
        some (returning.unitAt "f" (.of 0 6 1 7) (some "/")) ∧
      sweptUnits returning returningSymbols =
        [some (returning.unitAt "f" (.of 0 6 1 7) (some "/")),
          some (returning.unitAt "f" (.of 0 6 1 7) (some "/"))] := by
  have hlistedA : functionSymbols touching touchingSymbols =
      [("a", .of 0 0 1 1), ("b", .of 1 1 2 1)] := by
    rw [functionSymbols_of_pairwise] <;> decide +kernel
  have hlistedF : functionSymbols returning returningSymbols =
      [("f", .of 0 6 1 7), ("g", .of 0 17 1 7)] := by
    rw [functionSymbols_of_pairwise] <;> decide +kernel
  have hservesA : AnswerTables.provider.Serves touching touchingSymbols
      (tablesOf touching touchingSymbols) :=
    ⟨by decide +kernel, some touchingSymbols, _, _, rfl, rfl, rfl⟩
  have hservesF : AnswerTables.provider.Serves returning returningSymbols
      (tablesOf returning returningSymbols) :=
    ⟨by decide +kernel, some returningSymbols, _, _, rfl, rfl, rfl⟩
  refine ⟨⟨⟨by decide, by decide⟩, hlistedA, by decide +kernel, ?_⟩,
    ⟨by decide, by decide⟩, hlistedF, by decide +kernel, ?_⟩
  · rw [sweptUnits, sweepFile_functions _ _ hservesA, hlistedA]
    decide +kernel
  · rw [sweptUnits, sweepFile_functions _ _ hservesF, hlistedF]
    decide +kernel

end Engine

end Vicinity
