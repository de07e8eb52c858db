import Vicinity.Proofs.Enclosing.Outermost
import Vicinity.Proofs.References.Collecting
import Vicinity.Proofs.Resolver.Steady

/-!
# Where the words of a unit lead

Collecting passes over locations that it has seen, over those in the unit itself and over those that are
left out; it remembers opened documents, and of the units found it keeps one for each declaration. None of
this makes a difference to what is found where the provider is steady: the units collected are all that are
declared where a word of the unit leads.

## What is proved

* `mem_wordStarts`, `mem_wordStartsBetween`: where words begin.
* `CollectorM.Gives`: a computation has a fixed answer; there is a rule for each way to build computations.
* `Outline.smallest_unique`, `declaredThere_unique`: one span belongs to one smallest unit.
* `collected_collectFrom`, `collected_collectAt`: what has been seen and found after some locations, and
  after some positions.
* `collect_exact`: what is collected.
-/

namespace Vicinity

variable {σ : Type}

/-! ### Beginnings of words -/

/-- A run of ASCII letters begins at a column of a line. -/
def StartsWord (line : List Char) (column : Nat) : Prop :=
  ∃ before c after, line = before ++ c :: after ∧ before.length = column ∧ c.isAlpha = true ∧
    ∀ b ∈ before.getLast?, b.isAlpha = false

/-- The columns still to come, where it is known whether the character before them is a letter. -/
theorem mem_wordStarts_go (line : List Char) (start column : Nat) (afterLetter : Bool) :
    column ∈ wordStarts.go line start afterLetter ↔
      ∃ before c after, line = before ++ c :: after ∧ start + before.length = column ∧
        c.isAlpha = true ∧ (before.getLast?.map Char.isAlpha).getD afterLetter = false := by
  induction line generalizing start afterLetter with
  | nil => simp [wordStarts.go]
  | cons d rest ih =>
    have hsplit : column ∈ wordStarts.go (d :: rest) start afterLetter ↔
        (d.isAlpha = true ∧ afterLetter = false ∧ start = column) ∨
          column ∈ wordStarts.go rest (start + 1) d.isAlpha := by
      rw [wordStarts.go]
      cases hd : d.isAlpha <;> cases afterLetter <;> simp [eq_comm (a := start)]
    rw [hsplit, ih]
    constructor
    · rintro (⟨hd, hafter, rfl⟩ | ⟨before, c, after, rfl, rfl, hc, hbefore⟩)
      · exact ⟨[], d, rest, rfl, rfl, hd, hafter⟩
      · refine ⟨d :: before, c, after, rfl, by simp; omega, hc, ?_⟩
        rw [List.getLast?_cons]
        cases hlast : before.getLast? <;> simp_all
    · rintro ⟨_ | ⟨b, before⟩, c, after, hline, hcolumn, hc, hbefore⟩
      · cases hline
        exact .inl ⟨hc, hbefore, hcolumn⟩
      · cases hline
        refine .inr ⟨before, c, after, rfl, by simp at hcolumn; omega, hc, ?_⟩
        rw [List.getLast?_cons] at hbefore
        cases hlast : before.getLast? <;> simp_all

/-- **Words begin** at the columns listed for a line. -/
theorem mem_wordStarts {line : List Char} {column : Nat} :
    column ∈ wordStarts line ↔ StartsWord line column := by
  rw [wordStarts, mem_wordStarts_go]
  refine exists_congr fun before => exists_congr fun c => exists_congr fun after => ?_
  rw [Nat.zero_add]
  cases hlast : before.getLast? with
  | none => simp
  | some b => simp

/-- A word begins at a position of a document. -/
def Document.StartsWordAt (doc : Document) (position : Position) : Prop :=
  ∃ (i column : Nat) (line : List Char), position = ⟨i, column⟩ ∧ doc.lines[i]? = some line ∧
    StartsWord line column

theorem mem_wordStartsBetween {doc : Document} {first last : Int} {position : Position} :
    position ∈ wordStartsBetween doc first last ↔
      doc.StartsWordAt position ∧ first ≤ position.line ∧ position.line ≤ last := by
  unfold wordStartsBetween
  constructor
  · intro h
    obtain ⟨⟨line, i⟩, hline, hposition⟩ := List.mem_flatMap.mp h
    obtain ⟨hmem, hbetween⟩ := List.mem_filter.mp hline
    obtain ⟨column, hcolumn, rfl⟩ := List.mem_map.mp hposition
    exact ⟨⟨i, column, line, rfl, List.mk_mem_zipIdx_iff_getElem?.mp hmem,
      mem_wordStarts.mp hcolumn⟩, by simpa using hbetween⟩
  · rintro ⟨⟨i, column, line, rfl, hline, hstarts⟩, hbetween⟩
    refine List.mem_flatMap.mpr ⟨(line, i), List.mem_filter.mpr ⟨?_, by simpa using hbetween⟩, ?_⟩
    · exact List.mk_mem_zipIdx_iff_getElem?.mpr hline
    · exact List.mem_map.mpr ⟨column, mem_wordStarts.mpr hstarts, rfl⟩

/-! ### Fixed answers -/

namespace Provider

variable {p : Provider σ} {w : σ}

/-- Whatever has been asked since the state `w`, a question is answered with `a`. -/
def Says {α : Type} (p : Provider σ) (w : σ) (question : StateM σ α) (a : α) : Prop :=
  ∀ v, p.Reaches w v → (question v).1 = a ∧ p.Reaches w (question v).2

theorem Steady.says_locations (h : p.Steady w) (what : Lookup) (path : String) (position : Position) :
    p.Says w (p.locations what path position) (p.locations what path position w).1 := by
  intro v hv
  rw [locations_run, locations_run, h.locations v hv]
  exact ⟨rfl, .locations what path position hv⟩

theorem Steady.says_symbolsOrNone (h : p.Steady w) (path : String) :
    p.Says w (p.symbolsOrNone path) (p.symbolsOrNone path w).1 := by
  intro v hv
  have hanswer : (p.askSymbols path v).1 = (p.askSymbols path w).1 := h.symbols v hv path
  have hreaches : p.Reaches w (p.askSymbols path v).2 := .symbols path hv
  unfold symbolsOrNone
  simp only [bind, StateT.bind]
  rcases hthen : p.askSymbols path w with ⟨answer, u⟩
  rcases hnow : p.askSymbols path v with ⟨answer', u'⟩
  rw [hthen, hnow] at hanswer
  rw [hnow] at hreaches
  obtain rfl : answer' = answer := hanswer
  rcases answer' with _ | (_ | symbols) <;> exact ⟨rfl, hreaches⟩

theorem Steady.says_openDocument (h : p.Steady w) (path : String) (languageId : Option String) :
    p.Says w (p.openDocument path languageId) (p.openDocument path languageId w).1 := by
  intro v hv
  have htext : (p.textOrNone path v).1 = (p.textOrNone path w).1 := by
    rw [textOrNone_run, textOrNone_run, h.text v hv]
  have hreaches : p.Reaches w (p.textOrNone path v).2 := by
    rw [textOrNone_run]
    exact .text path hv
  unfold openDocument
  simp only [bind, StateT.bind]
  rcases hthen : p.textOrNone path w with ⟨text, u⟩
  rcases hnow : p.textOrNone path v with ⟨text', u'⟩
  rw [hthen, hnow] at htext
  rw [hnow] at hreaches
  obtain rfl : text' = text := htext
  cases text' <;> exact ⟨rfl, hreaches⟩

end Provider

/-- A state that questions may have led to from `w`: what is remembered of a document is what opening it
gives at `w`. -/
structure CollectorState.Agrees (p : Provider σ) (w : σ) (s : CollectorState σ) : Prop where
  reaches : p.Reaches w s.world
  current : ∀ path doc, s.documents.lookup path = some doc → doc = (p.openDocument path none w).1

theorem CollectorState.Agrees.of_new (p : Provider σ) (w : σ) :
    CollectorState.Agrees p w ⟨w, []⟩ := ⟨.refl, fun _ _ h => by cases h⟩

/-- In each state that agrees with `w`, a computation gives `a`, and it leads to such states. -/
def CollectorM.Gives {α : Type} (p : Provider σ) (w : σ) (m : CollectorM σ α) (a : α) : Prop :=
  ∀ s : CollectorState σ, s.Agrees p w → (m s).1 = a ∧ (m s).2.Agrees p w

namespace CollectorM.Gives

variable {p : Provider σ} {w : σ} {α β : Type}

theorem pure (a : α) : Gives p w (Pure.pure a) a := fun _ hs => ⟨rfl, hs⟩

theorem ask {question : StateM σ α} {a : α} (h : p.Says w question a) :
    Gives p w (CollectorM.ask question) a := by
  intro s hs
  obtain ⟨hvalue, hreaches⟩ := h s.world hs.reaches
  exact ⟨hvalue, hreaches, hs.current⟩

theorem bind {m : CollectorM σ α} {a : α} {f : α → CollectorM σ β} {b : β} (hm : Gives p w m a)
    (hf : Gives p w (f a) b) : Gives p w (m >>= f) b := by
  intro s hs
  obtain ⟨rfl, hagrees⟩ := hm s hs
  exact hf _ hagrees

theorem mapM {f : α → CollectorM σ β} {g : α → β} (hf : ∀ a, Gives p w (f a) (g a)) (as : List α) :
    Gives p w (as.mapM f) (as.map g) := by
  induction as with
  | nil => exact .pure []
  | cons a as ih =>
    rw [List.mapM_cons]
    exact (hf a).bind (ih.bind (.pure _))

end CollectorM.Gives

/-! ### One span, one unit -/

namespace Outline

variable {outline : Outline} {doc : Document}

/-- Smallest entries with the same span are the same, wherever they have been looked for. -/
theorem smallest_unique {position other : Position} {includeTypes : Bool} {c d : Nat × OutlineEntry}
    (hc : outline.findEnclosing doc position .smallest includeTypes = some c)
    (hd : outline.findEnclosing doc other .smallest includeTypes = some d)
    (hspan : c.2.span = d.2.span) : c = d := by
  obtain ⟨⟨hcmem, hcbeats⟩, -⟩ := (outline.findEnclosing_smallest doc).mp hc
  obtain ⟨⟨hdmem, hdbeats⟩, -⟩ := (outline.findEnclosing_smallest doc).mp hd
  obtain ⟨hcentry, hcontains, hccounts⟩ := (outline.mem_enclosing_iff doc).mp hcmem
  obtain ⟨hdentry, hcontains', hdcounts⟩ := (outline.mem_enclosing_iff doc).mp hdmem
  have hd : d ∈ outline.enclosing doc position includeTypes :=
    (outline.mem_enclosing_iff doc).mpr ⟨hdentry, hspan ▸ hcontains, hdcounts⟩
  have hc : c ∈ outline.enclosing doc other includeTypes :=
    (outline.mem_enclosing_iff doc).mpr ⟨hcentry, hspan ▸ hcontains', hccounts⟩
  rcases hcbeats d hd with rfl | hcd
  · rfl
  · rcases hdbeats c hc with rfl | hdc
    · rfl
    · exact absurd hdc hcd.asymm

end Outline

/-- Without the whole document to fall back on, what is located is an entry of the outline. -/
theorem exists_entry_of_locate {doc : Document} {symbols : List Symbol} {position : Position}
    {root : Option String} {extent : Extent} {includeTypes : Bool} {unit : CodeUnit}
    (h : locate doc symbols position root extent includeTypes false = some unit) :
    ∃ c, (Outline.ofSymbols symbols).findEnclosing doc position extent includeTypes = some c ∧
      unit = doc.unitAt c.2.name c.2.span root := by
  unfold locate at h
  dsimp only at h
  cases hfound : (Outline.ofSymbols symbols).findEnclosing doc position extent includeTypes with
  | some c =>
    rw [hfound] at h
    exact ⟨c, rfl, (Option.some.inj h).symm⟩
  | none =>
    rw [hfound] at h
    simp at h

namespace ReferenceCollector

open CollectorM

variable (r : ReferenceCollector σ) (w : σ)

/-! ### What a location leads to -/

/-- The locations to which a position leads. -/
def locationsThere (path : String) (position : Position) : List Location :=
  firstByKey id (r.questions.map fun what => (r.provider.locations what path position w).1).flatten

/-- The smallest function or type that is declared at a location, if its document can be opened. -/
def declaredThere (location : Location) : Option CodeUnit := do
  let target ← (r.provider.openDocument location.path none w).1
  locate target (r.provider.symbolsOrNone target.path w).1 location.span.start (some r.root)
    .smallest true false

/-- A location outside of a unit, which is not left out, leads to another unit. -/
structure Leads (unit : CodeUnit) (location : Location) (u : CodeUnit) : Prop where
  outside : unit.holds location = false
  not_isIgnored : r.isIgnored location.path = false
  declared : r.declaredThere w location = some u
  ref_ne : u.ref ≠ unit.ref

variable {r w}

/-- **One declaration, one unit**, whichever locations lead to it. -/
theorem declaredThere_unique {l m : Location} {u v : CodeUnit} (hu : r.declaredThere w l = some u)
    (hv : r.declaredThere w m = some v) (href : u.ref = v.ref) : u = v := by
  obtain ⟨target, htarget, hu⟩ := Option.bind_eq_some_iff.mp hu
  obtain ⟨target', htarget', hv⟩ := Option.bind_eq_some_iff.mp hv
  obtain ⟨c, hc, rfl⟩ := exists_entry_of_locate hu
  obtain ⟨d, hd, rfl⟩ := exists_entry_of_locate hv
  obtain ⟨hpath, hspan⟩ : target.path = target'.path ∧ c.2.span = d.2.span := by
    simpa [Document.unitAt] using href
  have hlocation : l.path = m.path :=
    (Provider.path_of_openDocument htarget).symm.trans (hpath.trans (Provider.path_of_openDocument htarget'))
  rw [hlocation] at htarget
  have hsame : target = target' := Option.some.inj (htarget.symm.trans htarget')
  subst hsame
  rw [Outline.smallest_unique hc hd hspan]

theorem mem_questions {what : Lookup} :
    what ∈ r.questions ↔ (what = .references → r.includeReferences = true) := by
  unfold questions
  cases what <;> cases r.includeReferences <;> simp

theorem mem_locationsThere {path : String} {position : Position} {location : Location} :
    location ∈ r.locationsThere w path position ↔
      ∃ what, (what = .references → r.includeReferences = true) ∧
        location ∈ (r.provider.locations what path position w).1 := by
  have hid : ∀ locations : List Location, location ∈ firstByKey id locations ↔ location ∈ locations :=
    fun _ => mem_firstByKey_of_injective fun _ _ _ _ hsame => hsame
  unfold locationsThere
  rw [hid, List.mem_flatten]
  constructor
  · rintro ⟨answer, hanswer, hmem⟩
    obtain ⟨what, hwhat, rfl⟩ := List.mem_map.mp hanswer
    exact ⟨what, mem_questions.mp hwhat, hmem⟩
  · rintro ⟨what, hwhat, hmem⟩
    exact ⟨_, List.mem_map_of_mem (mem_questions.mpr hwhat), hmem⟩

theorem gives_locationsAt (hw : r.provider.Steady w) (path : String) (position : Position) :
    Gives r.provider w (r.locationsAt path position) (r.locationsThere w path position) :=
  (Gives.mapM (fun what => .ask (hw.says_locations what path position)) r.questions).bind (.pure _)

theorem gives_document (hw : r.provider.Steady w) (path : String) :
    Gives r.provider w (r.document path) (r.provider.openDocument path none w).1 := by
  intro s hs
  unfold document
  simp only [Bind.bind, StateT.bind, get, getThe, MonadStateOf.get, StateT.get, Pure.pure]
  cases hlook : s.documents.lookup path with
  | some doc => exact ⟨hs.current path doc hlook, hs⟩
  | none =>
    obtain ⟨hopened, hreaches⟩ := hw.says_openDocument path none s.world hs.reaches
    refine ⟨hopened, hreaches, fun other doc hother => ?_⟩
    have hother : List.lookup other
        ((path, (r.provider.openDocument path none s.world).1) :: s.documents) = some doc := hother
    rw [List.lookup_cons] at hother
    split at hother
    · rename_i heq
      rw [eq_of_beq heq, ← hopened]
      exact (Option.some.inj hother).symm
    · exact hs.current other doc hother

theorem gives_declaredAt (hw : r.provider.Steady w) (location : Location) :
    Gives r.provider w (r.declaredAt location) (r.declaredThere w location) := by
  refine (gives_document hw location.path).bind ?_
  unfold declaredThere
  cases (r.provider.openDocument location.path none w).1 with
  | none => exact .pure none
  | some target => exact (Gives.ask (hw.says_symbolsOrNone target.path)).bind (.pure _)

/-! ### What has been collected -/

/-- What has been seen and found when some locations have been gone through. -/
structure Collected (r : ReferenceCollector σ) (w : σ) (unit : CodeUnit) (handled : List Location)
    (state : List Location × List CodeUnit) : Prop where
  mem_seen : ∀ l, l ∈ state.1 ↔ l ∈ handled ∧ unit.holds l = false
  mem_found : ∀ u, u ∈ state.2 ↔ ∃ l ∈ handled, r.Leads w unit l u

section

variable {doc : Document} {unit : CodeUnit} {handled : List Location}
  {state : List Location × List CodeUnit} {location : Location}

/-- A location that has been seen or lies in the unit adds nothing. -/
theorem Collected.pass (h : r.Collected w unit handled state)
    (hpass : location ∈ state.1 ∨ unit.holds location = true) :
    r.Collected w unit (handled ++ [location]) state := by
  refine ⟨fun l => ?_, fun u => ?_⟩
  · rw [h.mem_seen, List.mem_append, List.mem_singleton]
    constructor
    · exact fun ⟨hl, hout⟩ => ⟨.inl hl, hout⟩
    · rintro ⟨hl | rfl, hout⟩
      · exact ⟨hl, hout⟩
      · rcases hpass with hseen | hin
        · exact (h.mem_seen l).mp hseen
        · rw [hin] at hout
          cases hout
  · rw [h.mem_found]
    constructor
    · exact fun ⟨l, hl, hleads⟩ => ⟨l, List.mem_append_left _ hl, hleads⟩
    · rintro ⟨l, hl, hleads⟩
      rcases List.mem_append.mp hl with hl | hl
      · exact ⟨l, hl, hleads⟩
      · obtain rfl := List.mem_singleton.mp hl
        rcases hpass with hseen | hin
        · exact ⟨l, ((h.mem_seen l).mp hseen).1, hleads⟩
        · rw [hleads.outside] at hin
          cases hin

/-- Any other location is seen from then on, and the units to which it leads are found. -/
theorem Collected.add (h : r.Collected w unit handled state) (hout : unit.holds location = false)
    {units : List CodeUnit} (hunits : ∀ u, u ∈ units ↔ r.Leads w unit location u) :
    r.Collected w unit (handled ++ [location]) (location :: state.1, units ++ state.2) := by
  refine ⟨fun l => ?_, fun u => ?_⟩
  · rw [List.mem_cons, h.mem_seen, List.mem_append, List.mem_singleton]
    constructor
    · rintro (rfl | ⟨hl, hlout⟩)
      · exact ⟨.inr rfl, hout⟩
      · exact ⟨.inl hl, hlout⟩
    · rintro ⟨hl | rfl, hlout⟩
      · exact .inr ⟨hl, hlout⟩
      · exact .inl rfl
  · rw [List.mem_append, hunits, h.mem_found]
    constructor
    · rintro (hleads | ⟨l, hl, hleads⟩)
      · exact ⟨location, List.mem_append_right _ List.mem_cons_self, hleads⟩
      · exact ⟨l, List.mem_append_left _ hl, hleads⟩
    · rintro ⟨l, hl, hleads⟩
      rcases List.mem_append.mp hl with hl | hl
      · exact .inr ⟨l, hl, hleads⟩
      · obtain rfl := List.mem_singleton.mp hl
        exact .inl hleads

theorem Collected.addSeen (h : r.Collected w unit handled state) (hout : unit.holds location = false)
    (hnone : ∀ u, ¬r.Leads w unit location u) :
    r.Collected w unit (handled ++ [location]) (location :: state.1, state.2) := by
  have hunits : ∀ u, u ∈ ([] : List CodeUnit) ↔ r.Leads w unit location u :=
    fun u => ⟨fun hu => absurd hu List.not_mem_nil, fun hu => absurd hu (hnone u)⟩
  exact h.add hout hunits

/-- **Going through locations** finds what they lead to. -/
theorem collected_collectFrom (hw : r.provider.Steady w) (locations : List Location)
    (h : r.Collected w unit handled state) :
    ∃ state', Gives r.provider w (r.collectFrom unit locations state) state' ∧
      r.Collected w unit (handled ++ locations) state' := by
  induction locations generalizing handled state with
  | nil => exact ⟨state, .pure state, by rwa [List.append_nil]⟩
  | cons location more ih =>
    obtain ⟨seen, found⟩ := state
    rw [List.append_cons]
    unfold collectFrom
    by_cases hpass : (seen.contains location || unit.holds location) = true
    · rw [if_pos hpass]
      exact ih (h.pass (by simpa using hpass))
    · rw [if_neg hpass]
      have hout : unit.holds location = false := by
        simp only [Bool.or_eq_true, not_or, Bool.not_eq_true] at hpass
        exact hpass.2
      by_cases hign : r.isIgnored location.path = true
      · rw [if_pos hign]
        refine ih (h.addSeen hout fun u hleads => ?_)
        rw [hleads.not_isIgnored] at hign
        cases hign
      · rw [if_neg hign]
        have hdeclared := gives_declaredAt hw location
        cases hthere : r.declaredThere w location with
        | none =>
          rw [hthere] at hdeclared
          have hnone : ∀ u, ¬r.Leads w unit location u := by
            intro u hleads
            rw [hleads.declared] at hthere
            cases hthere
          obtain ⟨state', hgives, hcollected⟩ := ih (h.addSeen hout hnone)
          exact ⟨state', hdeclared.bind hgives, hcollected⟩
        | some declared =>
          rw [hthere] at hdeclared
          have honly : ∀ u, r.Leads w unit location u → u = declared := by
            intro u hleads
            rw [hleads.declared] at hthere
            exact Option.some.inj hthere
          by_cases href : declared.ref = unit.ref
          · have hnone : ∀ u, ¬r.Leads w unit location u :=
              fun u hleads => hleads.ref_ne (honly u hleads ▸ href)
            obtain ⟨state', hgives, hcollected⟩ := ih (h.addSeen hout hnone)
            refine ⟨state', hdeclared.bind ?_, hcollected⟩
            dsimp only
            rw [if_pos href]
            exact hgives
          · have hunits : ∀ u, u ∈ [declared] ↔ r.Leads w unit location u := by
              intro u
              rw [List.mem_singleton]
              refine ⟨?_, honly u⟩
              rintro rfl
              exact ⟨hout, by simpa using hign, hthere, href⟩
            obtain ⟨state', hgives, hcollected⟩ := ih (h.add hout hunits)
            refine ⟨state', hdeclared.bind ?_, hcollected⟩
            dsimp only
            rw [if_neg href]
            exact hgives

/-- **Going through positions** finds what they lead to. -/
theorem collected_collectAt (hw : r.provider.Steady w) (doc : Document) (positions : List Position)
    (h : r.Collected w unit handled state) :
    ∃ found, Gives r.provider w (r.collectAt doc unit positions state) found ∧
      ∀ u, u ∈ found ↔
        ∃ l ∈ handled ++ positions.flatMap (r.locationsThere w doc.path), r.Leads w unit l u := by
  induction positions generalizing handled state with
  | nil =>
    obtain ⟨seen, found⟩ := state
    refine ⟨found.reverse, .pure _, fun u => ?_⟩
    rw [List.mem_reverse, List.flatMap_nil, List.append_nil]
    exact h.mem_found u
  | cons position more ih =>
    obtain ⟨state', hgives, hcollected⟩ :=
      collected_collectFrom hw (r.locationsThere w doc.path position) h
    obtain ⟨found, hrest, hfound⟩ := ih hcollected
    refine ⟨found, (gives_locationsAt hw doc.path position).bind (hgives.bind hrest), ?_⟩
    rwa [List.flatMap_cons, ← List.append_assoc]

end

/-- **Collecting loses nothing and repeats nothing.** With a steady provider and nothing opened before,
what is collected are the functions and types declared at the locations to which a word that begins on the
lines of the unit leads, as far as these locations are outside of the unit and are not left out, but for
the unit itself; and each declaration is collected once. -/
theorem collect_exact (hw : r.provider.Steady w) (doc : Document) (unit : CodeUnit) :
    (∀ u, u ∈ (r.collect doc unit ⟨w, []⟩).1 ↔
      ∃ position, doc.StartsWordAt position ∧ unit.span.start.line ≤ position.line ∧
        position.line ≤ unit.span.stop.line ∧
        ∃ what, (what = .references → r.includeReferences = true) ∧
          ∃ location ∈ (r.provider.locations what doc.path position w).1,
            unit.holds location = false ∧ r.isIgnored location.path = false ∧
              r.declaredThere w location = some u ∧ u.ref ≠ unit.ref) ∧
    ((r.collect doc unit ⟨w, []⟩).1.map (·.ref)).Nodup := by
  refine ⟨fun u => ?_, r.collect_nodup_refs doc unit ⟨w, []⟩⟩
  have hnothing : r.Collected w unit [] ([], []) := ⟨fun l => by simp, fun u => by simp⟩
  obtain ⟨found, hgives, hfound⟩ := collected_collectAt hw doc
    (wordStartsBetween doc unit.span.start.line unit.span.stop.line) hnothing
  have hcollect : (r.collect doc unit ⟨w, []⟩).1 = firstByKey (·.ref) found :=
    ((hgives.bind (.pure (firstByKey (·.ref) found))) ⟨w, []⟩ (.of_new r.provider w)).1
  have hinjective : ∀ u ∈ found, ∀ v ∈ found, u.ref = v.ref → u = v := by
    intro u hu v hv href
    obtain ⟨l, -, hl⟩ := (hfound u).mp hu
    obtain ⟨m, -, hm⟩ := (hfound v).mp hv
    exact declaredThere_unique hl.declared hm.declared href
  rw [hcollect, mem_firstByKey_of_injective hinjective, hfound, List.nil_append]
  constructor
  · rintro ⟨l, hl, hleads⟩
    obtain ⟨position, hposition, hl⟩ := List.mem_flatMap.mp hl
    obtain ⟨hstarts, hfirst, hlast⟩ := mem_wordStartsBetween.mp hposition
    obtain ⟨what, hwhat, hl⟩ := mem_locationsThere.mp hl
    exact ⟨position, hstarts, hfirst, hlast, what, hwhat, l, hl, hleads.outside, hleads.not_isIgnored,
      hleads.declared, hleads.ref_ne⟩
  · rintro ⟨position, hstarts, hfirst, hlast, what, hwhat, l, hl, hout, hign, hdeclared, hne⟩
    have hposition := mem_wordStartsBetween.mpr ⟨hstarts, hfirst, hlast⟩
    exact ⟨l, List.mem_flatMap.mpr ⟨position, hposition, mem_locationsThere.mpr ⟨what, hwhat, hl⟩⟩,
      hout, hign, hdeclared, hne⟩

/-- A function that calls one of another file. -/
def callerAndHelper : AnswerTables where
  files := [("/a.py", "def caller():\n  helper()"), ("/b.py", "def helper():\n  pass")]
  symbols := [("/b.py", some [⟨"helper", .function, .of 0 0 1 6, []⟩])]
  definitions := [("helper", some [some ⟨"/b.py", some (.of 0 4 0 10)⟩])]

/-- The function that is called. -/
def calledHelper : CodeUnit :=
  (callerAndHelper.document "/b.py").unitAt "helper" (.of 0 0 1 6) (some "/")

/-- The function is collected for its caller. -/
theorem collect_calledHelper :
    AnswerTables.provider.Steady callerAndHelper ∧
      calledHelper ∈ (ReferenceCollector.collect ⟨AnswerTables.provider, "/", fun _ => false, false⟩
        (callerAndHelper.document "/a.py")
        ((callerAndHelper.document "/a.py").unitAt "caller" (.of 0 0 1 10) (some "/"))
        ⟨callerAndHelper, []⟩).1 := by
  refine ⟨callerAndHelper.steady, ((collect_exact callerAndHelper.steady _ _).1 calledHelper).mpr ?_⟩
  have hstarts : StartsWord "  helper()".toList 2 := by
    refine ⟨"  ".toList, 'h', "elper()".toList, by decide, by decide, by decide, ?_⟩
    rintro b ⟨⟩
    rfl
  refine ⟨⟨1, 2⟩, ⟨1, 2, _, rfl, by decide +kernel, hstarts⟩, by decide, by decide, .definitions,
    fun hwhat => ?_, ⟨"/b.py", .of 0 4 0 10⟩, by decide +kernel, by decide, rfl, by decide +kernel,
    by decide +kernel⟩
  cases hwhat

end ReferenceCollector

end Vicinity
