import Vicinity.Language.Role
import Vicinity.Proofs.Language.Bindings
import Vicinity.Proofs.Text.Offsets
import Vicinity.Source.Script

/-!
# The text of a declaration

A declaration of a script begins with its header and ends in the source, after it. So its text, cut out
by the positions of its two ends, begins with the header, and tells what has been declared: a bound
arrow function counts as a function and a type alias as a type, although both are given as variables.

## What is proved

* `exists_of_scanCode`: an early end of a scan comes from a character of the source.
* `exists_declarationEnd`: a declaration ends in what follows its header.
* `exists_header_of_mem_members`: which header a member of a class comes from.
* `exists_stands_of_declaredBy`: where in the source a symbol stands.
* `exists_text_of_declared`: the text of a declaration begins with what its header reads.
* `bindings_classified`: which variables and constants count as functions and which as types.
-/

namespace Vicinity

open Text Text.Pattern

/-- A match is told by the position at which it begins. -/
theorem eq_of_start_position {p : Pattern} {source : List Char} {m m' : Match}
    (h : m ∈ p.findAll source) (h' : m' ∈ p.findAll source)
    (hstart : positionOfOffset source m.start = positionOfOffset source m'.start) : m = m' := by
  obtain ⟨before, rest, rfl, hplace, -⟩ := exists_place_of_mem_findAll h
  obtain ⟨before', rest', hsource, hplace', -⟩ := exists_place_of_mem_findAll h'
  rw [hplace, hplace'] at hstart
  obtain rfl := eq_of_positionOfOffset hsource hstart
  exact eq_of_mem_findAll h h' (hplace.trans hplace'.symm)

theorem exists_of_scanCode_go {σ β : Type} {lexicon : Lexicon}
    {step : σ → Nat → Char → List Char → Except β σ} {stop : Option Int} {source : List Char}
    {offset resume : Nat} {state : σ} {found : β}
    (h : scanCode.go lexicon step stop source offset resume state = .error found) :
    ∃ state before c rest, source = before ++ c :: rest ∧
      step state (offset + before.length) c rest = .error found := by
  induction source generalizing offset resume state with
  | nil => cases h
  | cons c rest ih =>
    have hlater : ∀ {resume state},
        scanCode.go lexicon step stop rest (offset + 1) resume state = .error found →
        ∃ state before d more, c :: rest = before ++ d :: more ∧
          step state (offset + before.length) d more = .error found := by
      intro resume state h
      obtain ⟨state, before, d, more, rfl, hstep⟩ := ih h
      refine ⟨state, c :: before, d, more, rfl, ?_⟩
      rw [List.length_cons, Nat.add_comm before.length, ← Nat.add_assoc]
      exact hstep
    unfold scanCode.go at h
    split at h
    · cases h
    · split at h
      · exact hlater h
      · split at h
        · exact hlater h
        · split at h
          · exact hlater h
          · rename_i found' hstep
            cases h
            exact ⟨state, [], c, rest, rfl, hstep⟩

/-- A scan is ended early by a character of the source. -/
theorem exists_of_scanCode {σ β : Type} {lexicon : Lexicon}
    {step : σ → Nat → Char → List Char → Except β σ} {stop : Option Int} {source : List Char}
    {offset : Nat} {state : σ} {found : β}
    (h : scanCode lexicon step stop source offset state = .error found) :
    ∃ state before c rest, source = before ++ c :: rest ∧
      step state (offset + before.length) c rest = .error found := exists_of_scanCode_go h

/-- A brace that closes another one stands in the source. -/
theorem exists_of_matchingBrace {lexicon : Lexicon} {source : List Char} {offset close : Nat}
    (h : matchingBrace lexicon source offset = some close) :
    ∃ before rest, source = before ++ '\x7d' :: rest ∧ close = offset + before.length := by
  unfold matchingBrace at h
  split at h
  · rename_i found hscan
    cases h
    obtain ⟨depth, before, c, rest, rfl, hstep⟩ := exists_of_scanCode hscan
    unfold countBrace at hstep
    split at hstep
    · cases hstep
    · split at hstep
      · rename_i hc
        split at hstep
        · cases hstep
          exact ⟨before, rest, by rw [hc], rfl⟩
        · cases hstep
      · cases hstep
  · cases h

namespace Script

/-- The brace of a body stands in what follows the header. -/
theorem exists_of_bodyBrace {rest : List Char} {offset brace : Nat}
    (h : bodyBrace rest offset = some brace) :
    ∃ before more, rest = before ++ '\x7b' :: more ∧ brace = offset + before.length := by
  unfold bodyBrace at h
  split at h
  · rename_i found hscan
    subst h
    obtain ⟨_, before, c, more, rfl, hstep⟩ := exists_of_scanCode hscan
    unfold bodyStep at hstep
    split at hstep
    · rename_i hc
      cases hstep
      exact ⟨before, more, by rw [hc], rfl⟩
    · split at hstep
      · cases hstep
      · cases hstep
  · cases h

/-- A declaration ends in what follows its header. -/
theorem exists_declarationEnd (rest : List Char) (offset : Nat) :
    ∃ body tail, rest = body ++ tail ∧ declarationEnd rest offset = offset + body.length := by
  suffices h : ∃ n ≤ rest.length, declarationEnd rest offset = offset + n by
    obtain ⟨n, hn, hend⟩ := h
    refine ⟨rest.take n, rest.drop n, (List.take_append_drop n rest).symm, ?_⟩
    rw [hend, List.length_take_of_le hn]
  unfold declarationEnd
  split
  · rename_i brace hbrace
    obtain ⟨before, more, rfl, rfl⟩ := exists_of_bodyBrace hbrace
    rw [Nat.add_sub_cancel_left, List.drop_left]
    split
    · rename_i close hclose
      obtain ⟨inside, tail, hinside, rfl⟩ := exists_of_matchingBrace hclose
      refine ⟨before.length + inside.length + 1, ?_, by omega⟩
      rw [hinside]
      simp only [List.length_append, List.length_cons]
      omega
    · exact ⟨_, Nat.le_refl _, rfl⟩
  · exact ⟨_, (List.takeWhile_sublist _).length_le, rfl⟩

/-! ### Members of a class -/

/-- The next header of a member from an offset on, before the end of the class. -/
def nextHeader (source : List Char) (stop from_ : Nat) : Option Match :=
  memberHeader.search (.ofOffset (source.take stop) from_)

/-- The offset of the brace with which the header of a member ends. -/
def braceOf (m : Match) : Nat := m.stop.offset - 1

/-- The offset at which the block ends that a header begins. -/
def blockEnd (source : List Char) (m : Match) : Nat :=
  declarationEnd (source.drop (braceOf m)) (braceOf m)

/-- Where the search goes on after a header. -/
def resumeAt (source : List Char) (m : Match) : Nat := max (blockEnd source m) m.stop.offset

/-- The member that a header declares; none if its name is not one of a member. -/
def member? (source : List Char) (m : Match) : Option FlatSymbol :=
  match m.captured with
  | [blanks, name] =>
    if notMembers.contains (String.ofList name) then none
    else some (symbolAt source name (if String.ofList name = "constructor" then .constructor else .method)
      (m.start + blanks.length) (blockEnd source m))
  | _ => none

variable {source : List Char} {from_ stop : Nat} {m : Match} {s : FlatSymbol}

/-- Without a header there is no member. -/
theorem members_of_nextHeader_none (h : nextHeader source stop from_ = none) :
    members source from_ stop = [] := by
  rw [nextHeader] at h
  rw [members, h]

/-- One turn of the search for members. -/
theorem members_of_nextHeader (h : nextHeader source stop from_ = some m) :
    members source from_ stop = (member? source m).toList ++
      if from_ < resumeAt source m ∧ resumeAt source m ≤ stop then
        members source (resumeAt source m) stop else [] := by
  rw [nextHeader] at h
  rw [members, h]
  dsimp only
  split
  · rename_i blanks name hcaptured
    rw [member?, hcaptured]
    dsimp only
    split
    · rfl
    · rfl
  · rename_i hcaptured
    have hnone : member? source m = none := by
      rw [member?]
      split
      · exact absurd ‹_› (hcaptured _ _)
      · rfl
    rw [hnone]
    rfl

/-- What a header declares is a method or a constructor with its name, from behind the blanks before it. -/
theorem exists_captured_of_member (h : member? source m = some s) :
    ∃ blanks name kind, m.captured = [blanks, name] ∧ (kind = .method ∨ kind = .constructor) ∧
      s = symbolAt source name kind (m.start + blanks.length) (blockEnd source m) := by
  rw [member?] at h
  split at h
  · rename_i blanks name hcaptured
    split at h
    · cases h
    · cases h
      refine ⟨blanks, name, _, hcaptured, ?_, rfl⟩
      split
      · exact .inr rfl
      · exact .inl rfl
  · cases h

/-- **Which header a member comes from**: one that is found from an offset on, at the first or a later one. -/
theorem exists_header_of_mem_members (h : s ∈ members source from_ stop) :
    ∃ resume m, from_ ≤ resume ∧ nextHeader source stop resume = some m ∧ member? source m = some s := by
  induction hleft : stop - from_ using Nat.strongRecOn generalizing from_ with
  | ind left ih =>
    cases hnext : nextHeader source stop from_ with
    | none =>
      rw [members_of_nextHeader_none hnext] at h
      cases h
    | some m =>
      rw [members_of_nextHeader hnext, List.mem_append, Option.mem_toList] at h
      rcases h with hfirst | hlater
      · exact ⟨from_, m, Nat.le_refl _, hnext, hfirst⟩
      · split at hlater
        · rename_i hforward
          obtain ⟨resume, m', hresume, hfound⟩ := ih (stop - resumeAt source m) (by omega) hlater rfl
          exact ⟨resume, m', by omega, hfound⟩
        · cases hlater

/-- What is a member of a class is a method or a constructor. -/
theorem kind_of_mem_members (h : s ∈ members source from_ stop) :
    s.kind = .method ∨ s.kind = .constructor := by
  obtain ⟨resume, m, -, -, hs⟩ := exists_header_of_mem_members h
  obtain ⟨blanks, name, kind, -, hkind, rfl⟩ := exists_captured_of_member hs
  exact hkind

/-! ### What a header declares -/

/-- The symbols that the matches of a header declare. -/
def declaredBy (source : List Char) (header : Pattern) (kind : SymbolKind) : List FlatSymbol :=
  (header.findAll source).flatMap (declared source kind)

/-- A declared symbol reaches from the beginning of the match to the end of the declaration, with what has
been captured last as its name, or it is a member of a class. It is given as a constant only where more
than a name has been captured. -/
theorem own_or_member_of_mem_declared {source : List Char} {kind : SymbolKind} {found : Match}
    {s : FlatSymbol} (h : s ∈ declared source kind found) :
    (∃ kind', s = symbolAt source (found.captured.getLastD []) kind' found.start
        (declarationEnd found.stop.rest found.stop.offset) ∧
      (kind' = kind ∨ kind' = .constant ∧ 1 < found.captured.length)) ∨
    kind = .class ∧ (s.kind = .method ∨ s.kind = .constructor) := by
  unfold declared at h
  rcases List.mem_cons.mp h with rfl | h
  · refine .inl ⟨_, rfl, ?_⟩
    split
    · rename_i hcaptured
      exact .inr ⟨rfl, by simp [hcaptured]⟩
    · exact .inl rfl
  · split at h
    · rename_i hkind
      split at h
      · exact .inr ⟨hkind, kind_of_mem_members h⟩
      · cases h
    · cases h

/-- How a symbol stands in a source: after `before` comes what its header reads, and after that the rest of
its declaration. -/
structure Stands (source : List Char) (header : Pattern) (s : FlatSymbol)
    (before front body tail : List Char) : Prop where
  source_eq : source = before ++ (front ++ body) ++ tail
  matchAt : ∃ stop, header.matchAt (.after before (front ++ body ++ tail)) = some stop ∧
    stop.rest = body ++ tail
  reads : ∃ captured, header.Reads front captured ∧ s.name = String.ofList (captured.getLastD [])
  span_eq : s.span = ⟨positionOfOffset source before.length,
    positionOfOffset source (before ++ (front ++ body)).length⟩

/-- Its text is what its header reads and the rest of its declaration. -/
theorem Stands.textIn_eq {source : List Char} {header : Pattern} {s : FlatSymbol}
    {before front body tail : List Char} (h : Stands source header s before front body tail) :
    textIn source s.span = front ++ body := by
  rw [h.span_eq, h.source_eq]
  exact textIn_positionOfOffset before (front ++ body) tail

/-- **Where a symbol stands that is no member of a class.** -/
theorem exists_stands_of_declaredBy {source : List Char} {header : Pattern} {kind : SymbolKind}
    {s : FlatSymbol} (h : s ∈ declaredBy source header kind)
    (hmember : ¬(kind = .class ∧ (s.kind = .method ∨ s.kind = .constructor))) :
    ∃ before front body tail, Stands source header s before front body tail := by
  obtain ⟨found, hfound, hs⟩ := List.mem_flatMap.mp h
  obtain ⟨_, rfl, -⟩ := (own_or_member_of_mem_declared hs).resolve_right hmember
  obtain ⟨before, rest, rfl, hstart, hmatch⟩ := exists_place_of_mem_findAll hfound
  obtain ⟨front, hreads, rfl, hstop, -⟩ := exists_reads_of_matchAt hmatch
  obtain ⟨body, tail, hrest, hend⟩ := exists_declarationEnd found.stop.rest found.stop.offset
  rw [hstop, ← List.length_append, List.append_assoc before] at hend
  rw [hrest, ← List.append_assoc front] at hmatch
  refine ⟨before, front, body, tail, ?_, ⟨_, hmatch, hrest⟩, ⟨_, hreads, rfl⟩, ?_⟩
  · simp only [hrest, List.append_assoc]
  · rw [symbolAt, hstop, hstart, hend]

/-- The text of a declaration begins with what its header reads. -/
theorem exists_text_of_declared {source : List Char} {header : Pattern} {kind : SymbolKind}
    (hkind : kind ≠ .class) {s : FlatSymbol} (h : s ∈ declaredBy source header kind) :
    header.Starts (textIn source s.span) := by
  obtain ⟨before, front, body, tail, hstands⟩ :=
    exists_stands_of_declaredBy h fun hmember => hkind hmember.1
  obtain ⟨captured, hreads, -⟩ := hstands.reads
  exact ⟨front, captured, body, hreads, hstands.textIn_eq⟩

/-- A symbol has the kind of its header, or is a member of a class, if the header captures a name and
nothing else. -/
theorem kind_of_declaredBy {source : List Char} {header : Pattern} {kind : SymbolKind}
    (hheader : header.captureBound = some 1) {s : FlatSymbol} (h : s ∈ declaredBy source header kind) :
    s.kind = kind ∨ s.kind = .method ∨ s.kind = .constructor := by
  obtain ⟨found, hfound, hs⟩ := List.mem_flatMap.mp h
  obtain ⟨before, t, hreads, -⟩ := exists_reads_of_mem_findAll hfound
  have hlength := hreads.length_le hheader
  obtain ⟨kind', rfl, hkind⟩ | ⟨-, hmember⟩ := own_or_member_of_mem_declared hs
  · exact .inl (hkind.resolve_right fun hmore => Nat.not_lt.mpr hlength hmore.2)
  · exact .inr hmember

theorem exists_header_of_mem_collect {source : List Char} {headers : List (Pattern × SymbolKind)}
    {claimed : List Nat} {s : FlatSymbol} (h : s ∈ collect source headers claimed) :
    ∃ header ∈ headers, s ∈ declaredBy source header.1 header.2 := by
  induction headers generalizing claimed with
  | nil => cases h
  | cons header more ih =>
    rcases List.mem_append.mp h with h | h
    · obtain ⟨found, hfound, hs⟩ := List.mem_flatMap.mp h
      exact ⟨header, List.mem_cons_self,
        List.mem_flatMap.mpr ⟨found, (List.mem_filter.mp hfound).1, hs⟩⟩
    · obtain ⟨other, hother, hs⟩ := ih h
      exact ⟨other, List.mem_cons_of_mem _ hother, hs⟩

/-- Every symbol of a source comes from one of the headers. -/
theorem exists_header_of_symbols {source : String} {found : List FlatSymbol}
    (h : symbols source = .ok found) {s : FlatSymbol} (hs : s ∈ found) :
    ∃ header ∈ headers, s ∈ declaredBy source.toList header.1 header.2 := by
  unfold symbols at h
  split at h
  · cases h
  · cases h
    exact exists_header_of_mem_collect (List.mem_mergeSort.mp hs)

/-- A function comes from the header of a function. -/
theorem mem_declaredBy_of_function {source : String} {found : List FlatSymbol}
    (h : symbols source = .ok found) {s : FlatSymbol} (hs : s ∈ found) (hkind : s.kind = .function) :
    s ∈ declaredBy source.toList functionHeader .function := by
  obtain ⟨header, hheader, hdeclared⟩ := exists_header_of_symbols h hs
  have hsame : header.2 = .function := by
    obtain ⟨m, -, hm⟩ := List.mem_flatMap.mp hdeclared
    obtain ⟨kind, rfl, hown | ⟨hown, -⟩⟩ | ⟨-, hmember⟩ := own_or_member_of_mem_declared hm
    · exact hown.symm.trans hkind
    · cases hown.symm.trans hkind
    · rw [hkind] at hmember
      rcases hmember with hmember | hmember <;> cases hmember
  simp only [headers, List.mem_cons, List.not_mem_nil, or_false] at hheader
  rcases hheader with rfl | rfl | rfl | rfl | rfl | rfl
  · exact hdeclared
  all_goals cases hsame

/-- The symbols of a source, if they are collected in the order of their starts. -/
theorem symbols_eq_of_collect {source : String} {found : List FlatSymbol}
    (hsize : source.utf8ByteSize ≤ maxSourceBytes) (hfound : collect source.toList headers [] = found)
    (hsorted : found.Pairwise fun a b => a.startLe b = true) : symbols source = .ok found := by
  rw [symbols, if_neg (Nat.not_lt.mpr hsize), hfound, List.mergeSort_of_pairwise hsorted]

/-- A variable or constant comes from the header of a type alias or of an arrow function. -/
theorem mem_declaredBy_of_binding {source : String} {found : List FlatSymbol}
    (h : symbols source = .ok found) {s : FlatSymbol} (hs : s ∈ found)
    (hkind : s.kind = .variable ∨ s.kind = .constant) :
    s ∈ declaredBy source.toList aliasHeader .variable ∨
      s ∈ declaredBy source.toList arrowHeader .variable := by
  obtain ⟨header, hheader, hdeclared⟩ := exists_header_of_symbols h hs
  -- The other headers capture a name and nothing else, so none of them makes a constant.
  have hother : ∀ {pattern kind}, pattern.captureBound = some 1 →
      s ∈ declaredBy source.toList pattern kind → kind ≠ .variable → kind ≠ .constant → False := by
    intro pattern kind hbound hmem hvariable hconstant
    rcases kind_of_declaredBy hbound hmem with heq | heq | heq <;> rw [heq] at hkind
    · exact hkind.elim hvariable hconstant
    · rcases hkind with hkind | hkind <;> cases hkind
    · rcases hkind with hkind | hkind <;> cases hkind
  simp only [headers, List.mem_cons, List.not_mem_nil, or_false] at hheader
  rcases hheader with rfl | rfl | rfl | rfl | rfl | rfl
  · exact (hother (by decide +kernel) hdeclared (by decide) (by decide)).elim
  · exact (hother (by decide +kernel) hdeclared (by decide) (by decide)).elim
  · exact (hother (by decide +kernel) hdeclared (by decide) (by decide)).elim
  · exact (hother (by decide +kernel) hdeclared (by decide) (by decide)).elim
  · exact .inl hdeclared
  · exact .inr hdeclared

/-! ### Functions and types among the bindings -/

/-- The header of a type alias at the beginning of a line is one anywhere. -/
theorem starts_typeAlias {s : List Char} (h : aliasHeader.Starts s) : Binding.typeAlias.Starts s := by
  obtain ⟨t, a, tail, hreads, rfl⟩ := h
  obtain ⟨t₅, behind, _, _, rfl, -, h₅, hbehind⟩ := reads_append.mp hreads
  obtain ⟨t₄, name, _, _, rfl, -, h₄, hname⟩ := reads_append.mp h₅
  obtain ⟨t₃, spaces, _, _, rfl, -, h₃, hspaces⟩ := reads_append.mp h₄
  obtain ⟨t₂, word, _, _, rfl, -, h₂, hword⟩ := reads_append.mp h₃
  obtain ⟨start, front, _, _, rfl, -, hstart, hfront⟩ := reads_append.mp h₂
  obtain ⟨rfl, -⟩ := reads_lineStart.mp hstart
  obtain ⟨_, hname, -⟩ := reads_capture.mp hname
  have hblank : Pattern.blanks.Reads [] [] := reads_blanks.mpr ⟨by simp, rfl⟩
  exact ⟨_, _, tail,
    .both (.both (.both (.both (.both hblank hfront) hword) hspaces) hname) hbehind, rfl⟩

/-- The header of an arrow function at the beginning of a line is one anywhere. -/
theorem starts_arrowFunction {s : List Char} (h : arrowHeader.Starts s) :
    Binding.arrowFunction.Starts s := by
  obtain ⟨t, a, tail, hreads, rfl⟩ := h
  obtain ⟨t₅, behind, _, _, rfl, -, h₅, hbehind⟩ := reads_append.mp hreads
  obtain ⟨t₄, name, _, _, rfl, -, h₄, hname⟩ := reads_append.mp h₅
  obtain ⟨t₃, spaces, _, _, rfl, -, h₃, hspaces⟩ := reads_append.mp h₄
  obtain ⟨t₂, word, _, _, rfl, -, h₂, hword⟩ := reads_append.mp h₃
  obtain ⟨start, front, _, _, rfl, -, hstart, hfront⟩ := reads_append.mp h₂
  obtain ⟨rfl, -⟩ := reads_lineStart.mp hstart
  obtain ⟨_, hname, -⟩ := reads_capture.mp hname
  obtain ⟨_, hword, -⟩ := reads_capture.mp hword
  have hblank : Pattern.blanks.Reads [] [] := reads_blanks.mpr ⟨by simp, rfl⟩
  have hbinds := reads_opt.mpr (.inl (.both hword hspaces))
  refine ⟨_, _, tail, .both (.both (.both (.both hblank hfront) hbinds) hname) hbehind, ?_⟩
  simp only [List.append_assoc]

theorem functionKinds_of_isScript {language : Language} (h : language.isScript = true) :
    language.functionKinds = [.function, .method, .constructor] := by
  revert h
  cases language <;> decide

theorem typeKinds_of_isScript {language : Language} (h : language.isScript = true) :
    language.typeKinds = [.class, .interface, .enum] := by
  revert h
  cases language <;> decide

/-- Whether a variable or constant counts as a function is up to its text alone. -/
theorem isFunctionLike_binding {language : Language} (hlanguage : language.isScript = true)
    {kind : SymbolKind} (hkind : kind = .variable ∨ kind = .constant) (text : List Char) :
    isFunctionLike language.id kind text = Binding.arrowFunction.matchesStart text := by
  rw [isFunctionLike, Language.ofId?_id]
  dsimp only
  rw [functionKinds_of_isScript hlanguage, Language.binds, hlanguage]
  rcases hkind with rfl | rfl <;> rfl

/-- So is whether it counts as a type. -/
theorem isTypeLike_binding {language : Language} (hlanguage : language.isScript = true)
    {kind : SymbolKind} (hkind : kind = .variable ∨ kind = .constant) (text : List Char) :
    isTypeLike language.id kind text = Binding.typeAlias.matchesStart text := by
  rw [isTypeLike, Language.ofId?_id]
  dsimp only
  rw [typeKinds_of_isScript hlanguage, Language.binds, hlanguage]
  rcases hkind with rfl | rfl <;> rfl

theorem isPlain_typeAlias : Binding.typeAlias.isPlain = true := by decide +kernel

theorem isPlain_arrowFunction : Binding.arrowFunction.isPlain = true := by decide +kernel

/-- **A variable or constant of a script counts as a function or as a type, and not as both**: it comes
from the header of a type alias or of an arrow function, as a type if from the one and as a function if
from the other. -/
theorem bindings_classified {source : String} {found : List FlatSymbol}
    (h : symbols source = .ok found) {s : FlatSymbol} (hs : s ∈ found)
    (hkind : s.kind = .variable ∨ s.kind = .constant) {language : Language}
    (hlanguage : language.isScript = true) :
    (isFunctionLike language.id s.kind (textIn source.toList s.span) =
      !isTypeLike language.id s.kind (textIn source.toList s.span)) ∧
    (s ∈ declaredBy source.toList aliasHeader .variable ∨
      s ∈ declaredBy source.toList arrowHeader .variable) ∧
    (s ∈ declaredBy source.toList aliasHeader .variable →
      isTypeLike language.id s.kind (textIn source.toList s.span) = true) ∧
    (s ∈ declaredBy source.toList arrowHeader .variable →
      isFunctionLike language.id s.kind (textIn source.toList s.span) = true) := by
  rw [isFunctionLike_binding hlanguage hkind, isTypeLike_binding hlanguage hkind]
  have horigin := mem_declaredBy_of_binding h hs hkind
  have htype : s ∈ declaredBy source.toList aliasHeader .variable →
      Binding.typeAlias.matchesStart (textIn source.toList s.span) = true := fun halias =>
    (matchesStart_iff isPlain_typeAlias).mpr
      (starts_typeAlias (exists_text_of_declared (by decide) halias))
  have hfunction : s ∈ declaredBy source.toList arrowHeader .variable →
      Binding.arrowFunction.matchesStart (textIn source.toList s.span) = true := fun harrow =>
    (matchesStart_iff isPlain_arrowFunction).mpr
      (starts_arrowFunction (exists_text_of_declared (by decide) harrow))
  refine ⟨?_, horigin, htype, hfunction⟩
  have hnever : ¬(Binding.arrowFunction.matchesStart (textIn source.toList s.span) = true ∧
      Binding.typeAlias.matchesStart (textIn source.toList s.span) = true) := by
    rw [matchesStart_iff isPlain_arrowFunction, matchesStart_iff isPlain_typeAlias]
    exact fun hboth => Binding.not_typeAlias_of_arrowFunction hboth.1 hboth.2
  rcases horigin with halias | harrow
  · have hmatch := htype halias
    rw [hmatch, Bool.not_true, Bool.eq_false_iff]
    exact fun hother => hnever ⟨hother, hmatch⟩
  · have hmatch := hfunction harrow
    rw [hmatch, eq_comm, Bool.not_eq_true', Bool.eq_false_iff]
    exact fun hother => hnever ⟨hmatch, hother⟩

/-- The only symbol of a source in which a constant is bound to an arrow function. -/
def boundArrow : FlatSymbol := ⟨"f", .constant, .of 0 0 0 16⟩

/-- It counts as a function or as a type, and not as both. -/
theorem bindings_classified_boundArrow :
    symbols "const f = x => x" = .ok [boundArrow] ∧ boundArrow.kind = .constant ∧
      isFunctionLike Language.typescript.id boundArrow.kind
          (textIn "const f = x => x".toList boundArrow.span) =
        !isTypeLike Language.typescript.id boundArrow.kind
          (textIn "const f = x => x".toList boundArrow.span) ∧
      (boundArrow ∈ declaredBy "const f = x => x".toList aliasHeader .variable ∨
        boundArrow ∈ declaredBy "const f = x => x".toList arrowHeader .variable) := by
  have hfound : symbols "const f = x => x" = .ok [boundArrow] := by decide +kernel
  have hscript : Language.typescript.isScript = true := rfl
  obtain ⟨hone, horigin, -⟩ :=
    bindings_classified hfound List.mem_cons_self (.inr rfl) hscript
  exact ⟨hfound, rfl, hone, horigin⟩

end Script

end Vicinity
