import Vicinity.Proofs.Candidate.Cursor
import Vicinity.Proofs.Resolver.Steady
import Vicinity.Proofs.Resolver.Transcripts

/-!
# Where names are asked about

A name is asked about where its characters stand first in a document. That is the place of the name itself
only if no longer identifier with these characters in it comes before: the provider is asked about whatever
identifier stands at the position, and the entry that comes of it has the name that was looked for.

## What is proved

* `firstOccurrence_eq_some_iff`: the place that is found for a name.
* `identifierAt_append_iff`: at a column a word is read exactly if it stands there as a whole.
* `asks_lookUp`, `Visits.asked`: the questions for a name, and those of a walk.
* `Visits.isFirst_of_asked`, `Visits.mem_locations_of_first`: they are about first places, and what is found
  of the name itself comes from an answer about its first place.
* `resolve_asks_first_occurrences`: what resolving a name asks about, and when that is the name.
-/

namespace Vicinity

open Text

/-! ### Places of a name -/

/-- The characters of a name stand at a position of a document. -/
def Document.HasAt (doc : Document) (name : List Char) (p : Position) : Prop :=
  ∃ (i k : Nat) (line : List Char), p = ⟨i, k⟩ ∧ doc.lines[i]? = some line ∧ name <+: line.drop k

/-- A name stands as a whole at a position of a document. -/
def Document.HasWholeAt (doc : Document) (name : List Char) (p : Position) : Prop :=
  ∃ (i : Nat) (line before after : List Char), p = ⟨i, before.length⟩ ∧ doc.lines[i]? = some line ∧
    WholeAt line before name after

/-- The characters of a name stand at a position, and nowhere before it. -/
structure Document.IsFirst (doc : Document) (name : List Char) (p : Position) : Prop where
  stands : doc.HasAt name p
  le : ∀ q, doc.HasAt name q → p.le q

/-- The identifier at a position of a document. -/
def Document.identifierAt (doc : Document) (p : Position) : Option (List Char) :=
  Vicinity.identifierAt (doc.lines.getD p.line.toNat []) p.column

section Places

variable {doc : Document} {name : List Char} {p : Position}

theorem Document.HasWholeAt.hasAt (h : doc.HasWholeAt name p) : doc.HasAt name p := by
  obtain ⟨i, line, before, after, rfl, hline, hwhole⟩ := h
  refine ⟨i, before.length, line, rfl, hline, ?_⟩
  rw [hwhole.text_eq, List.append_assoc, List.drop_left]
  exact List.prefix_append name after

theorem Document.IsFirst.unique {q : Position} (hp : doc.IsFirst name p) (hq : doc.IsFirst name q) :
    p = q := Position.le_antisymm (hp.le q hq.stands) (hq.le p hp.stands)

theorem firstOccurrence_eq (doc : Document) (name : List Char) :
    Resolver.firstOccurrence doc name = doc.lines.zipIdx.findSome? fun entry =>
      (find name entry.1).map fun k : Nat => ⟨entry.2, k⟩ := by
  unfold Resolver.firstOccurrence
  refine congrArg (List.findSome? · doc.lines.zipIdx) (funext fun ⟨line, i⟩ => ?_)
  cases hfind : find name line <;> simp [hfind]

theorem firstOccurrence_eq_none (h : Resolver.firstOccurrence doc name = none) (p : Position) :
    ¬doc.HasAt name p := by
  rw [firstOccurrence_eq, List.findSome?_eq_none_iff] at h
  rintro ⟨i, k, line, rfl, hline, hbegins⟩
  have hnone := Option.map_eq_none_iff.mp (h _ (List.mk_mem_zipIdx_iff_getElem?.mpr hline))
  exact find_eq_none_iff.mp hnone k hbegins

/-- What is found is the first place. -/
theorem isFirst_of_firstOccurrence (h : Resolver.firstOccurrence doc name = some p) :
    doc.IsFirst name p := by
  rw [firstOccurrence_eq] at h
  obtain ⟨l₁, ⟨line, i⟩, l₂, hsplit, hfind, hbefore⟩ := List.findSome?_eq_some_iff.mp h
  obtain ⟨k, hk, rfl⟩ := Option.map_eq_some_iff.mp hfind
  obtain ⟨hbegins, hleast⟩ := find_eq_some_iff.mp hk
  have hline : doc.lines[i]? = some line := by
    rw [← List.mk_mem_zipIdx_iff_getElem?, hsplit]
    exact List.mem_append_right _ List.mem_cons_self
  have hindex : (doc.lines.zipIdx.map (·.2)).Pairwise (· < ·) := by
    rw [List.zipIdx_map_snd]
    exact List.pairwise_lt_range' 1
  rw [hsplit, List.pairwise_map] at hindex
  refine ⟨⟨i, k, line, rfl, hline, hbegins⟩, ?_⟩
  rintro q ⟨j, m, other, rfl, hother, hstands⟩
  rw [Position.le_iff]
  have hmem : (other, j) ∈ l₁ ++ (line, i) :: l₂ := hsplit ▸ List.mk_mem_zipIdx_iff_getElem?.mpr hother
  rcases List.mem_append.mp hmem with hmem | hmem
  · -- nothing stands on the lines before
    have hnone := Option.map_eq_none_iff.mp (hbefore _ hmem)
    exact absurd hstands (find_eq_none_iff.mp hnone m)
  · rcases List.mem_cons.mp hmem with heq | hmem
    · cases heq
      have hle : k ≤ m := by
        by_contra hlt
        exact hleast m (by omega) hstands
      exact .inr ⟨rfl, Int.ofNat_le.mpr hle⟩
    · have hlt : i < j :=
        (List.pairwise_cons.mp (List.pairwise_append.mp hindex).2.1).1 _ hmem
      exact .inl (Int.ofNat_lt.mpr hlt)

/-- **The place that is found for a name** is the first one at which its characters stand. -/
theorem firstOccurrence_eq_some_iff :
    Resolver.firstOccurrence doc name = some p ↔ doc.IsFirst name p := by
  refine ⟨isFirst_of_firstOccurrence, fun h => ?_⟩
  cases hfound : Resolver.firstOccurrence doc name with
  | some q => rw [(isFirst_of_firstOccurrence hfound).unique h]
  | none => exact absurd h.stands (firstOccurrence_eq_none hfound p)

theorem exists_isFirst (h : doc.HasAt name p) : ∃ q, doc.IsFirst name q := by
  cases hfound : Resolver.firstOccurrence doc name with
  | some q => exact ⟨q, isFirst_of_firstOccurrence hfound⟩
  | none => exact absurd h (firstOccurrence_eq_none hfound p)

end Places

/-! ### The identifier that is read -/

/-- **A word is read** exactly where it stands as a whole. -/
theorem identifierAt_append_iff {before word after : List Char} (hword : IsIdentifier word) :
    identifierAt (before ++ word ++ after) before.length = some word ↔
      WholeAt (before ++ word ++ after) before word after := by
  have htake : (before ++ word ++ after).take before.length = before := by
    rw [List.append_assoc, List.take_left]
  have hdrop : (before ++ word ++ after).drop before.length = word ++ after := by
    rw [List.append_assoc, List.drop_left]
  have hwithin : ¬((before.length : Int) < 0 ||
      (before.length : Int) ≥ (before ++ word ++ after).length) := by
    have hpos := List.length_pos_iff.mpr hword.ne_nil
    simp
    omega
  have hfront : before.reverse.takeWhile isIdentifierChar = [] ↔
      ∀ b ∈ before.getLast?, isIdentifierChar b = false := by
    rw [takeWhile_eq_nil_iff_head?, List.head?_reverse]
  unfold identifierAt
  rw [if_neg hwithin]
  simp only [Int.toNat_natCast, htake, hdrop, List.takeWhile_append_of_pos hword.chars]
  obtain ⟨c, rest, rfl, hc, hrest⟩ := hword
  rw [if_neg (by simp)]
  constructor
  · intro h
    -- what is read has no characters but those of the word
    have hlength := h
    split at hlength
    · cases hlength
    · rename_i hread
      split at hlength
      · cases hlength
      · cases hlength
        have hcount := congrArg List.length hread
        simp only [List.length_append, List.length_reverse] at hcount
        refine ⟨rfl, hfront.mp ?_, takeWhile_eq_nil_iff_head?.mp ?_⟩
        · exact List.length_eq_zero_iff.mp (by omega)
        · exact List.length_eq_zero_iff.mp (by omega)
  · intro hwhole
    rw [hfront.mpr hwhole.before_free, takeWhile_eq_nil_iff_head?.mpr hwhole.after_free]
    simp [isDigit_eq_false_of_start hc]

/-- Where its characters stand in a document, a name is read exactly if it stands there as a whole. -/
theorem Document.identifierAt_iff {doc : Document} {name : List Char} {p : Position}
    (hname : IsIdentifier name) (h : doc.HasAt name p) :
    doc.identifierAt p = some name ↔ doc.HasWholeAt name p := by
  obtain ⟨i, k, line, rfl, hline, after, hafter⟩ := h
  have hsplit : line = line.take k ++ name ++ after := by
    rw [List.append_assoc, hafter, List.take_append_drop]
  have hlength : (line.take k).length = k := by
    have hpos := List.length_pos_iff.mpr hname.ne_nil
    have hcount := congrArg List.length hafter
    rw [List.length_append, List.length_drop] at hcount
    rw [List.length_take]
    omega
  have hread : doc.identifierAt ⟨i, k⟩ = some name ↔ WholeAt line (line.take k) name after := by
    have hiff : Vicinity.identifierAt (line.take k ++ name ++ after) (line.take k).length = some name ↔
        WholeAt (line.take k ++ name ++ after) (line.take k) name after := identifierAt_append_iff hname
    rw [← hsplit, hlength] at hiff
    rw [← hiff, Document.identifierAt]
    simp [hline]
  rw [hread]
  constructor
  · exact fun hwhole => ⟨i, line, line.take k, after, by rw [hlength], hline, hwhole⟩
  · rintro ⟨j, other, before, rest, hp, hother, hwhole⟩
    obtain ⟨hj, hk⟩ := Position.mk.inj hp
    obtain rfl := Int.ofNat_inj.mp hj
    obtain rfl := Int.ofNat_inj.mp hk
    obtain rfl := Option.some.inj (hline.symm.trans hother)
    have hbefore : line.take before.length = before := by
      rw [hwhole.text_eq, List.append_assoc, List.take_left]
    have hrest : rest = after := by
      rw [hwhole.text_eq, List.append_assoc, List.drop_left] at hafter
      exact (List.append_cancel_left hafter).symm
    rw [hbefore, ← hrest]
    exact hwhole

/-- **At the first place the name is read** exactly if no longer identifier with its characters in it comes
before all places at which it stands as a whole. -/
theorem Document.IsFirst.identifierAt_iff {doc : Document} {name : List Char} {p : Position}
    (hname : IsIdentifier name) (h : doc.IsFirst name p) :
    doc.identifierAt p = some name ↔
      ∀ q, doc.HasAt name q → ∃ q', doc.HasWholeAt name q' ∧ q'.le q := by
  rw [Document.identifierAt_iff hname h.stands]
  constructor
  · exact fun hwhole q hq => ⟨p, hwhole, h.le q hq⟩
  · intro hall
    obtain ⟨q, hwhole, hle⟩ := hall p h.stands
    rwa [Position.le_antisymm (h.le q hwhole.hasAt) hle]

/-! ### The questions for a name -/

namespace Resolver

variable {σ : Type} {r : Resolver σ} {α β : Type}

/-- Of a list of questions some are put, from the first one on. -/
structure Begun (all asked : List ProviderCall) : Prop where
  isPrefix : asked <+: all
  ne_nil : all ≠ [] → asked ≠ []

/-- They are put until something is found. -/
structure Begins (all : List ProviderCall) (found : Option α) (asked : List ProviderCall) : Prop
    extends Begun all asked where
  all_of_none : found = none → asked = all

namespace Begins

variable {first rest asked more : List ProviderCall} {found : Option α}

theorem nil : Begins [] found [] := ⟨⟨List.nil_prefix, fun h => absurd rfl h⟩, fun _ => rfl⟩

/-- Once something is found, no later question is put. -/
theorem append {a : α} (h : Begins first (some a) asked) (hfirst : first ≠ []) :
    Begins (first ++ rest) (some a) asked :=
  ⟨⟨h.isPrefix.trans (List.prefix_append _ _), fun _ => h.ne_nil hfirst⟩, fun hnone => by cases hnone⟩

/-- If nothing is found with the first questions, the others are begun. -/
theorem after (first : List ProviderCall) (h : Begins rest found more) :
    Begins (first ++ rest) found (first ++ more) := by
  refine ⟨⟨(List.prefix_append_right_inj _).mpr h.isPrefix, fun hall hnil => ?_⟩, fun hnone => ?_⟩
  · obtain ⟨rfl, hmore⟩ := List.append_eq_nil_iff.mp hnil
    exact h.ne_nil hall hmore
  · rw [h.all_of_none hnone]

end Begins

/-- The questions for a name in several documents. -/
def questionsFor (name : List Char) (docs : List Document) : List ProviderCall :=
  docs.flatMap fun doc => match firstOccurrence doc name with
    | some p => [.locations .typeDefinitions doc.path p, .locations .definitions doc.path p]
    | none => []

theorem asks_firstAnswer (r : Resolver σ) (path : String) (position : Position)
    (kinds : List Lookup) :
    Asks (fun _ => True) (r.firstAnswer path position kinds)
      ((r.via r.provider.recording).firstAnswer path position kinds)
      (Begins (kinds.map (.locations · path position))) := by
  induction kinds with
  | nil => exact .pure .nil
  | cons kind kinds ih =>
    have hsame : (r.via r.provider.recording).isIgnored = r.isIgnored := rfl
    unfold firstAnswer
    rw [hsame]
    have hask : Asks (fun _ => True) (.ask (r.provider.locations kind path position))
        (.ask (r.provider.recording.locations kind path position))
        fun _ asked => asked = [.locations kind path position] :=
      .ask fun _ _ => ⟨rfl, trivial⟩
    refine hask.bind ?_
    rintro found _ rfl
    cases found.find? (fun location => !r.isIgnored location.path) with
    | some location =>
      exact .pure ⟨⟨⟨_, rfl⟩, fun _ => List.cons_ne_nil _ _⟩, fun hnone => by cases hnone⟩
    | none => exact ih.mono fun _ _ h => h.after [_]

theorem asks_definingLocation (r : Resolver σ) (name : List Char) (docs : List Document) :
    Asks (fun _ => True) (r.definingLocation name docs)
      ((r.via r.provider.recording).definingLocation name docs) (Begins (questionsFor name docs)) := by
  induction docs with
  | nil => exact .pure .nil
  | cons doc docs ih =>
    rw [questionsFor, List.flatMap_cons, ← questionsFor]
    unfold definingLocation
    cases firstOccurrence doc name with
    | none => exact ih
    | some p =>
      refine (asks_firstAnswer r doc.path p [.typeDefinitions, .definitions]).bind
        fun found asked hasked => ?_
      cases found with
      | some location =>
        refine .pure ?_
        rw [List.append_nil]
        exact hasked.append (List.cons_ne_nil _ _)
      | none =>
        rw [hasked.all_of_none rfl]
        exact ih.mono fun _ _ h => h.after _

/-- **A name is asked about** where it occurs first, in one document after the other. -/
theorem asks_lookUp (r : Resolver σ) (origin : Document) (other : Option Document) (name : List Char) :
    Asks (fun _ => True) (r.lookUp origin other name)
      ((r.via r.provider.recording).lookUp origin other name)
      fun _ asked => Begun (questionsFor name (origin :: other.toList)) asked := by
  obtain ⟨f, f', hrun, hrun', halike⟩ := exists_lookUp_eq r r.provider.recording origin other name
  rw [hrun, hrun']
  refine (asks_definingLocation r name _).bind fun found asked hasked =>
    .of_alike (halike found) fun _ _ => ⟨?_, trivial⟩
  rw [List.append_nil]
  exact hasked.toBegun

/-! ### The questions of a walk -/

/-- **A walk asks for one visit after the other**: the questions about positions are, for each of them, some
of those for its name, from the first one on. -/
theorem Visits.asked {origin : Document} {depth : Nat} {other : Option Document}
    {names : List (List Char)} {s t : Walk σ} {log : List Visit}
    (h : r.Visits origin depth other names s log t) :
    ∀ calls, ∃ more,
      (r.via r.provider.recording).Visits origin depth other names (s.recorded calls) log
        (t.recorded (calls ++ more)) ∧
      ∃ parts, more.filter ProviderCall.isAboutPosition = parts.flatten ∧
        List.Forall₂ (fun (x : Visit) part => Begun (questionsFor x.name (origin :: x.other.toList)) part)
          log parts := by
  induction h with
  | done => exact fun calls => ⟨[], by rw [List.append_nil]; exact .done, [], rfl, .nil⟩
  | skip hpass _ ih =>
    intro calls
    obtain ⟨more, hmore, hparts⟩ := ih calls
    exact ⟨more, .skip hpass hmore, hparts⟩
  | @miss _ other name _ s u _ _ fresh look _ ih =>
    intro calls
    obtain ⟨asked, hlook, -, hasked⟩ := asks_lookUp r origin other name s.toResolverState trivial calls
    rw [look] at hlook
    obtain ⟨more, hmore, parts, hfilter, hparts⟩ := ih (calls ++ asked)
    rw [List.append_assoc] at hmore
    refine ⟨asked ++ more, .miss fresh hlook hmore, _ :: parts, ?_, .cons hasked hparts⟩
    rw [List.filter_append, hfilter, List.flatten_cons]
  | @hit _ other name _ s u found inner v log t fresh look _ _ ihb ihm =>
    intro calls
    obtain ⟨asked, hlook, -, hasked⟩ := asks_lookUp r origin other name s.toResolverState trivial calls
    rw [look] at hlook
    obtain ⟨below, hbelow, partsb, hfilterb, hpartsb⟩ := ihb (calls ++ asked)
    obtain ⟨more, hmore, parts, hfilter, hparts⟩ := ihm (calls ++ asked ++ below)
    have hassoc : calls ++ asked ++ below ++ more = calls ++ (asked ++ (below ++ more)) := by
      simp only [List.append_assoc]
    rw [hassoc] at hmore
    refine ⟨asked ++ (below ++ more), .hit fresh hlook hbelow hmore, _ :: (partsb ++ parts), ?_,
      .cons hasked (List.rel_append hpartsb hparts)⟩
    rw [List.filter_append, List.filter_append, hfilterb, hfilter, List.flatten_cons,
      List.flatten_append]

theorem mem_questionsFor {name : List Char} {docs : List Document} {call : ProviderCall}
    (h : call ∈ questionsFor name docs) :
    ∃ d ∈ docs, ∃ what p, d.IsFirst name p ∧ call = .locations what d.path p := by
  obtain ⟨d, hd, hcall⟩ := List.mem_flatMap.mp h
  cases hfirst : firstOccurrence d name with
  | none =>
    rw [hfirst] at hcall
    cases hcall
  | some p =>
    rw [hfirst] at hcall
    rcases List.mem_pair.mp hcall with rfl | rfl
    · exact ⟨d, hd, _, p, firstOccurrence_eq_some_iff.mp hfirst, rfl⟩
    · exact ⟨d, hd, _, p, firstOccurrence_eq_some_iff.mp hfirst, rfl⟩

theorem exists_of_mem_right {R : α → β → Prop} {as : List α} {bs : List β} (h : List.Forall₂ R as bs)
    {b : β} (hb : b ∈ bs) : ∃ a ∈ as, R a b := by
  induction h with
  | nil => cases hb
  | @cons a b' as bs hab _ ih =>
    rcases List.mem_cons.mp hb with rfl | hb
    · exact ⟨a, List.mem_cons_self, hab⟩
    · obtain ⟨c, hc, hcb⟩ := ih hb
      exact ⟨c, List.mem_cons_of_mem a hc, hcb⟩

/-- With depth left, a walk first visits the name that it is asked for. -/
theorem Visits.exists_first {origin : Document} {depth : Nat} {name : List Char} {s t : Walk σ}
    {log : List Visit} (h : r.Visits origin depth none [name] s log t) (hdepth : 0 < depth)
    (hnew : name ∉ s.visited) :
    ∃ x rest, log = x :: rest ∧ x.name = name ∧ x.other = none ∧
      x.result = (r.lookUp origin none name s.toResolverState).1 := by
  cases h with
  | skip hpass _ =>
    rcases hpass with hzero | hvisited
    · omega
    · exact absurd hvisited hnew
  | miss _ look _ => exact ⟨_, _, rfl, rfl, rfl, by rw [look]⟩
  | hit _ look _ _ => exact ⟨_, _, rfl, rfl, rfl, by rw [look]⟩

/-- A definition that is found in one document alone is an answer about the first place of the name. -/
theorem mem_locations_of_definingLocation {doc : Document} {name : List Char} {p : Position}
    (hp : doc.IsFirst name p) {s : ResolverState σ} {location : Location}
    (h : (r.definingLocation name [doc] s).1 = some location) :
    ∃ what w, location ∈ (r.provider.locations what doc.path p w).1 := by
  rw [definingLocation_cons, firstOccurrence_eq_some_iff.mpr hp] at h
  dsimp only at h
  rcases hanswer : r.firstAnswer doc.path p [.typeDefinitions, .definitions] s with ⟨_ | found, u⟩
  · rw [hanswer] at h
    cases h
  · rw [hanswer] at h
    cases h
    obtain ⟨⟨what, -, w, hmem⟩, -⟩ := mem_locations_of_firstAnswer r (congrArg Prod.fst hanswer)
    exact ⟨what, w, hmem⟩

/-- A question that a walk puts for one of its visits is about the first place of the name, in the origin or
in a document that holds a declaration found. -/
theorem Visits.isFirst_of_asked {origin : Document} {depth : Nat} {names : List (List Char)}
    {s t : Walk σ} {log : List Visit} (h : r.Visits origin depth none names s log t) {x : Visit}
    (hx : x ∈ log) {call : ProviderCall}
    (hcall : call ∈ questionsFor x.name (origin :: x.other.toList)) :
    ∃ d what p, (d = origin ∨ ∃ f ∈ findings log, f.declaring = some d) ∧ d.IsFirst x.name p ∧
      call = .locations what d.path p := by
  obtain ⟨d, hd, what, p, hp, rfl⟩ := mem_questionsFor hcall
  refine ⟨d, what, p, ?_, hp, rfl⟩
  rcases List.mem_cons.mp hd with rfl | hd
  · exact .inl rfl
  · have hother := Option.mem_toList.mp hd
    rcases h.came_from hx with ⟨-, hnone, -⟩ | ⟨y, hy, f, hf, -, hdeclaring, -⟩
    · rw [hnone] at hother
      cases hother
    · exact .inr ⟨f, mem_findings.mpr ⟨y, hy, hf⟩, hdeclaring.symm.trans hother⟩

/-- Where the first visit looks only in the origin, what is found of its name comes from an answer about the
first place of the name there. -/
theorem Visits.mem_locations_of_first {origin : Document} {depth : Nat} {names : List (List Char)}
    {s t : Walk σ} {x : Visit} {rest : List Visit}
    (h : r.Visits origin depth none names s (x :: rest) t)
    (hresult : x.result = (r.lookUp origin none x.name s.toResolverState).1) {p : Position}
    (hp : origin.IsFirst x.name p) {f : Finding} (hf : f ∈ findings (x :: rest))
    (hname : f.name = x.name) : ∃ what w, f.location ∈ (r.provider.locations what origin.path p w).1 := by
  obtain ⟨y, hy, hfound⟩ := mem_findings.mp hf
  have hsame : y = x :=
    h.eq_of_name_eq hy List.mem_cons_self ((h.name_of_result hy hfound).symm.trans hname)
  rw [hsame, hresult] at hfound
  obtain ⟨-, hlocation, -, -⟩ := lookUp_eq_some r hfound
  exact mem_locations_of_definingLocation hp hlocation

/-- The questions for a name in one document start with the one for its type. -/
theorem head?_of_begun {doc : Document} {name : List Char} {p : Position} (hp : doc.IsFirst name p)
    {asked : List ProviderCall} (h : Begun (questionsFor name [doc]) asked) :
    asked.head? = some (.locations .typeDefinitions doc.path p) := by
  have hall : questionsFor name [doc] =
      [.locations .typeDefinitions doc.path p, .locations .definitions doc.path p] := by
    simp [questionsFor, firstOccurrence_eq_some_iff.mpr hp]
  rw [hall] at h
  obtain ⟨call, more, rfl⟩ := List.exists_cons_of_ne_nil (h.ne_nil (List.cons_ne_nil _ _))
  obtain ⟨rfl, -⟩ := List.cons_prefix_cons.mp h.isPrefix
  rfl

/-- **Resolving asks about first occurrences.** Every question about a position is about the first place of
a name that is visited, in the document that was given or in one that holds a declaration found. With depth
left, the first question is about the name itself in the document that was given, and an entry of that name
comes from an answer about its first place there. At the first place of a name the identifier is that name
exactly if no longer identifier with its characters in it comes before all places at which it stands as a
whole. -/
theorem resolve_asks_first_occurrences (r : Resolver σ) (doc : Document) (name : List Char)
    (depth : Int) (visited : List (List Char)) (s : ResolverState σ) :
    let run := r.resolve doc name depth visited s
    let found := (r.walk doc depth.toNat none name ⟨s, visited⟩).1
    let asked := (r.resolveCalls doc name depth visited s).filter ProviderCall.isAboutPosition
    (∀ call ∈ asked, ∃ m d what p, m ∈ run.1.2 ∧ m ∉ visited ∧
      (d = doc ∨ ∃ f ∈ found, f.declaring = some d) ∧ d.IsFirst m p ∧
      call = .locations what d.path p) ∧
    (0 < depth → name ∉ visited → (∃ q, doc.HasAt name q) → ∃ p, doc.IsFirst name p ∧
      asked.head? = some (.locations .typeDefinitions doc.path p) ∧
      ∀ type ∈ run.1.1, type.name.toList = name → ∃ f what w,
        f.location ∈ (r.provider.locations what doc.path p w).1 ∧ type = r.entry f) ∧
    ∀ (m : List Char) (d : Document) (p : Position), IsIdentifier m → d.IsFirst m p →
      (d.identifierAt p = some m ↔ ∀ q, d.HasAt m q → ∃ q', d.HasWholeAt m q' ∧ q'.le q) := by
  obtain ⟨log, t, h⟩ := r.exists_visits doc depth.toNat none [name] ⟨s, visited⟩
  obtain ⟨calls, hrec, parts, hfilter, hparts⟩ := h.asked []
  have hrun := resolve_eq r doc name depth visited s h
  have hasked := resolveCalls_eq r doc name depth visited s hrec
  simp only [hrun, h.walk_eq, hasked, List.nil_append, hfilter]
  refine ⟨fun call hcall => ?_, fun hdepth hnew ⟨q, hq⟩ => ?_,
    fun m d p hm hp => hp.identifierAt_iff hm⟩
  · obtain ⟨part, hpart, hcall⟩ := List.mem_flatten.mp hcall
    obtain ⟨x, hx, hbegun⟩ := exists_of_mem_right hparts hpart
    obtain ⟨d, what, p, hd, hp, rfl⟩ := h.isFirst_of_asked hx (hbegun.isPrefix.subset hcall)
    refine ⟨x.name, d, what, p, ?_, h.nodup_visited.2 x hx, hd, hp, rfl⟩
    rw [h.visited_eq]
    exact List.mem_append_right _ (List.mem_map_of_mem hx)
  · obtain ⟨p, hp⟩ := exists_isFirst hq
    obtain ⟨x, rest, rfl, rfl, hother, hresult⟩ := h.exists_first (by omega) hnew
    refine ⟨p, hp, ?_, fun type htype hname => ?_⟩
    · obtain ⟨part, parts', hbegun, -, rfl⟩ := List.forall₂_cons_left_iff.mp hparts
      rw [hother] at hbegun
      have hhead := head?_of_begun hp hbegun
      rw [List.flatten_cons, List.head?_append, hhead]
      rfl
    · obtain ⟨f, hf, rfl⟩ := List.mem_map.mp htype
      have hname : f.name = x.name := String.toList_ofList.symm.trans hname
      obtain ⟨what, w, hmem⟩ := h.mem_locations_of_first hresult hp hf hname
      exact ⟨f, what, w, hmem, rfl⟩

/-- A type whose name stands in that of another one, which is declared before it. -/
def longerFirst : AnswerTables :=
  .ofTypes [("/a.ts", "interface FooBar \x7b\n\x7d\ninterface Foo \x7b\n\x7d\n")]
    [("FooBar", "/a.ts", .of 0 0 1 1), ("Foo", "/a.ts", .of 2 0 3 1)]

/-- The longer name is asked about where it stands as a whole. -/
theorem resolve_longerName :
    let doc := longerFirst.document "/a.ts"
    let asked := AnswerTables.resolver.resolveCalls doc "FooBar".toList 1 [] ⟨longerFirst, []⟩
    (0 : Int) < 1 ∧ "FooBar".toList ∉ ([] : List (List Char)) ∧ IsIdentifier "FooBar".toList ∧
      ∃ p, doc.IsFirst "FooBar".toList p ∧
        (asked.filter ProviderCall.isAboutPosition).head? =
          some (.locations .typeDefinitions "/a.ts" p) ∧
        doc.identifierAt p = some "FooBar".toList := by
  have hname : IsIdentifier "FooBar".toList :=
    ⟨'F', "ooBar".toList, rfl, by decide, List.all_eq_true.mp (by decide)⟩
  have hwhole : (longerFirst.document "/a.ts").HasWholeAt "FooBar".toList ⟨0, 10⟩ := by
    refine ⟨0, "interface FooBar \x7b".toList, "interface ".toList, " \x7b".toList, rfl,
      by decide +kernel, by decide, ?_, ?_⟩
    · rintro c ⟨⟩
      rfl
    · rintro c ⟨⟩
      rfl
  have hfound : firstOccurrence (longerFirst.document "/a.ts") "FooBar".toList = some ⟨0, 10⟩ := by
    decide +kernel
  obtain ⟨-, hfirst, hread⟩ := resolve_asks_first_occurrences AnswerTables.resolver
    (longerFirst.document "/a.ts") "FooBar".toList 1 [] ⟨longerFirst, []⟩
  obtain ⟨p, hp, hasked, -⟩ := hfirst (by decide) List.not_mem_nil ⟨_, hwhole.hasAt⟩
  refine ⟨by decide, List.not_mem_nil, hname, p, hp, hasked, (hread _ _ p hname hp).mpr ?_⟩
  exact fun q hq => ⟨_, hwhole, (firstOccurrence_eq_some_iff.mp hfound).le q hq⟩

/-- The shorter name is asked about inside the longer one, although it stands as a whole further down, and
the entry that has its name shows the other type. -/
theorem resolve_shorterName :
    let doc := longerFirst.document "/a.ts"
    IsIdentifier "Foo".toList ∧ doc.HasWholeAt "Foo".toList ⟨2, 10⟩ ∧
      AnswerTables.resolver.resolveCalls doc "Foo".toList 1 [] ⟨longerFirst, []⟩ =
        [.locations .typeDefinitions "/a.ts" ⟨0, 10⟩, .text "/a.ts"] ∧
      doc.identifierAt ⟨0, 10⟩ = some "FooBar".toList ∧
      (AnswerTables.resolver.resolve doc "Foo".toList 1 [] ⟨longerFirst, []⟩).1.1.map
        (fun type => (type.name, type.text)) = [("Foo", "interface FooBar \x7b\n\x7d")] := by
  refine ⟨⟨'F', "oo".toList, rfl, by decide, List.all_eq_true.mp (by decide)⟩, ?_, ?_, ?_, ?_⟩
  · refine ⟨2, "interface Foo \x7b".toList, "interface ".toList, " \x7b".toList, rfl,
      by decide +kernel, by decide, ?_, ?_⟩
    · rintro c ⟨⟩
      rfl
    · rintro c ⟨⟩
      rfl
  · decide +kernel
  · decide +kernel
  · decide +kernel

end Resolver

end Vicinity
