import Vicinity.CodeUnit
import Vicinity.Proofs.Source.Functions
import Vicinity.Proofs.Text.Searching

/-!
# The texts of reported symbols

A symbol's positions come from two offsets in its source: that of the beginning of its declaration, which
a match of a header gives, and that of its end. The text that is cut out of the document by the positions
is what stands between the offsets. A member of a class begins behind the blanks that stand before it on
its line, although the match of its header begins with them.

## What is proved

* `Script.exists_declares`, `GoSource.exists_declares`: which match a symbol comes from, and where it ends.
* `Script.Declares.order`, `GoSource.Declares.order`: its offsets lie in the source, in order.
* `text_of_reported`: the text of a reported symbol.
* `text_of_indented_member`: it does not begin where the match of the header of a member does.
-/

namespace Vicinity

open Text Text.Pattern

namespace Script

/-! ### Scripts -/

/-- A member of a class comes from a match of its header that is found, from an offset on, before the end of
the class. It reaches from behind the blanks with which the match begins to the end of the declaration. -/
inductive DeclaresMember (source : List Char) (from_ stop : Nat) (s : FlatSymbol) :
    (start finish : Nat) → Prop where
  | intro {resume : Nat} {m : Match} {blanks name : List Char} {kind : SymbolKind}
      (hresume : from_ ≤ resume)
      (hm : memberHeader.search (.ofOffset (source.take stop) resume) = some m)
      (hcaptured : m.captured = [blanks, name])
      (hs : s = symbolAt source name kind (m.start + blanks.length)
        (declarationEnd (source.drop (m.stop.offset - 1)) (m.stop.offset - 1))) :
      DeclaresMember source from_ stop s (m.start + blanks.length)
        (declarationEnd (source.drop (m.stop.offset - 1)) (m.stop.offset - 1))

/-- From where to where in a source a symbol is declared: a declaration at the beginning of a line reaches
from the start of the match of its header to its end, or it is that of a member of a class. -/
inductive Declares (source : List Char) (s : FlatSymbol) : (start finish : Nat) → Prop where
  | own {header : Pattern × SymbolKind} {m : Match} {kind : SymbolKind} (hheader : header ∈ headers)
      (hm : m ∈ header.1.findAll source)
      (hs : s = symbolAt source (m.captured.getLastD []) kind m.start
        (declarationEnd m.stop.rest m.stop.offset)) :
      Declares source s m.start (declarationEnd m.stop.rest m.stop.offset)
  | member {c : Match} {brace start finish : Nat} (hc : c ∈ classHeader.findAll source)
      (hbrace : bodyBrace c.stop.rest c.stop.offset = some brace)
      (h : DeclaresMember source (brace + 1) (declarationEnd c.stop.rest c.stop.offset) s start finish) :
      Declares source s start finish

variable {source : List Char} {s : FlatSymbol} {from_ stop start finish : Nat}

theorem exists_declaresMember (h : s ∈ members source from_ stop) :
    ∃ start finish, DeclaresMember source from_ stop s start finish := by
  obtain ⟨resume, m, hresume, hm, hs⟩ := exists_header_of_mem_members h
  obtain ⟨blanks, name, kind, hcaptured, -, hs⟩ := exists_captured_of_member hs
  exact ⟨_, _, .intro hresume hm hcaptured hs⟩

/-- **Which match a symbol comes from.** -/
theorem exists_declares {source : String} {found : List FlatSymbol} (h : symbols source = .ok found)
    (hs : s ∈ found) : ∃ start finish, Declares source.toList s start finish := by
  obtain ⟨header, hheader, hdeclared⟩ := exists_header_of_symbols h hs
  obtain ⟨m, hm, hs⟩ := List.mem_flatMap.mp hdeclared
  unfold declared at hs
  rcases List.mem_cons.mp hs with rfl | hs
  · exact ⟨_, _, .own hheader hm rfl⟩
  · split at hs
    · rename_i hkind
      split at hs
      · rename_i brace hbrace
        obtain ⟨start, finish, hmember⟩ := exists_declaresMember hs
        have hclass : header = (classHeader, .class) := by
          simp only [headers, List.mem_cons, List.not_mem_nil, or_false] at hheader
          rcases hheader with rfl | rfl | rfl | rfl | rfl | rfl <;> first | rfl | cases hkind
        rw [hclass] at hm
        exact ⟨start, finish, .member hm hbrace hmember⟩
      · cases hs
    · cases hs

/-- The header of a member ends with a brace, and what is captured stands before that. -/
theorem exists_front_of_memberHeader {t : List Char} {captured : List (List Char)}
    (h : memberHeader.Reads t captured) :
    ∃ front, t = front ++ ['\x7b'] ∧ captured.flatten.length ≤ front.length := by
  obtain ⟨front, brace, a, b, rfl, rfl, hfront, hbrace⟩ := reads_append.mp h
  obtain ⟨rfl, rfl⟩ := reads_text.mp hbrace
  refine ⟨front, rfl, ?_⟩
  rw [List.append_nil]
  exact hfront.length_captured_le (by decide +kernel)

/-- Where the header of a member stands in the source. -/
theorem exists_place_of_member {resume : Nat} {m : Match}
    (hm : memberHeader.search (.ofOffset (source.take stop) resume) = some m) :
    ∃ before front rest, source = before ++ front ++ '\x7b' :: rest ∧ m.start = before.length ∧
      m.stop.offset = (before ++ front).length + 1 ∧
      m.captured.flatten.length ≤ front.length := by
  rw [ofOffset_eq_after] at hm
  obtain ⟨skipped, tail, htail, hstart, hmatch⟩ := exists_place_of_search hm
  obtain ⟨t, hreads, rfl, hoffset, -⟩ := exists_reads_of_matchAt hmatch
  obtain ⟨front, rfl, hcaptured⟩ := exists_front_of_memberHeader hreads
  refine ⟨(source.take stop).take resume ++ skipped, front, m.stop.rest ++ source.drop stop, ?_, hstart,
    ?_, hcaptured⟩
  · have hinside : source.take stop =
        (source.take stop).take resume ++ (skipped ++ (front ++ ['\x7b'] ++ m.stop.rest)) := by
      rw [← htail, List.take_append_drop]
    conv_lhs => rw [← List.take_append_drop stop source, hinside]
    simp only [List.append_assoc, List.cons_append, List.nil_append]
  · rw [hoffset, ← List.append_assoc, List.length_append, List.length_singleton]

/-- A member's offsets lie in the source, in order. -/
theorem DeclaresMember.order (h : DeclaresMember source from_ stop s start finish) :
    start ≤ finish ∧ finish ≤ source.length ∧
      s.span = ⟨positionOfOffset source start, positionOfOffset source finish⟩ := by
  obtain ⟨-, hm, hcaptured, rfl⟩ := h
  rename_i resume m blanks name kind
  obtain ⟨before, front, rest, hsource, hstart, hoffset, hlength⟩ := exists_place_of_member hm
  have hbrace : m.stop.offset - 1 = (before ++ front).length := by omega
  have hdrop : source.drop (before ++ front).length = '\x7b' :: rest := by rw [hsource, List.drop_left]
  obtain ⟨body, tail, hbody, hfinish⟩ := exists_declarationEnd ('\x7b' :: rest) (before ++ front).length
  rw [hbrace, hdrop, hfinish, hstart]
  simp only [hcaptured, List.flatten_cons, List.length_append] at hlength
  refine ⟨?_, ?_, rfl⟩
  · rw [List.length_append]
    omega
  · rw [hsource, hbody]
    simp only [List.length_append]
    omega

/-- **A symbol's offsets lie in the source, in order**, and its positions are theirs. -/
theorem Declares.order (h : Declares source s start finish) :
    start ≤ finish ∧ finish ≤ source.length ∧
      s.span = ⟨positionOfOffset source start, positionOfOffset source finish⟩ := by
  cases h with
  | @own header m kind hheader hm hs =>
    obtain ⟨before, t, -, hsource, hstart, hoffset⟩ := exists_reads_of_mem_findAll hm
    obtain ⟨body, tail, hbody, hfinish⟩ := exists_declarationEnd m.stop.rest m.stop.offset
    refine ⟨?_, ?_, congrArg FlatSymbol.span hs⟩
    · rw [hfinish, hoffset, hstart, List.length_append]
      omega
    · rw [hfinish, hoffset, hsource, hbody]
      simp only [List.length_append]
      omega
  | member hc hbrace hmember => exact hmember.order

end Script

namespace GoSource

/-! ### Go sources -/

/-- The offset at which a declaration ends whose body begins with the brace at an offset. -/
def bodyEnd (source : List Char) (brace : Nat) : Nat :=
  match matchingBrace .go (source.drop brace) brace with
  | some close => close + 1
  | none => source.length

/-- From where to where in a source a symbol is declared: from the start of the match of its header to the
end of its body. -/
inductive Declares (source : List Char) (s : FlatSymbol) : (start finish : Nat) → Prop where
  | intro {header : Pattern × SymbolKind} {m : Match} {brace : Nat} (hheader : header ∈ headers)
      (hm : m ∈ header.1.findAll source) (hbrace : bodyBrace m.stop = some brace)
      (hs : s = ⟨String.ofList (m.captured.headD []), header.2, positionOfOffset source m.start,
        positionOfOffset source (bodyEnd source brace)⟩) :
      Declares source s m.start (bodyEnd source brace)

variable {source : List Char} {s : FlatSymbol} {start finish : Nat}

theorem declares_of_declared? {header : Pattern × SymbolKind} (hheader : header ∈ headers) {m : Match}
    (hm : m ∈ header.1.findAll source) (h : declared? source header.2 m = some s) :
    ∃ start finish, Declares source s start finish := by
  obtain ⟨brace, hbrace, rfl⟩ := Option.map_eq_some_iff.mp h
  refine ⟨_, _, .intro hheader hm hbrace ?_⟩
  unfold bodyEnd
  cases matchingBrace .go (source.drop brace) brace <;> rfl

/-- **Which match a symbol comes from.** -/
theorem exists_declares {source : String} {found : List FlatSymbol} (h : symbols source = .ok found)
    (hs : s ∈ found) : ∃ start finish, Declares source.toList s start finish := by
  unfold symbols at h
  split at h
  · cases h
  · cases h
    obtain ⟨header, hheader, m, hm, hdeclared⟩ := exists_match_of_mem_collect (List.mem_mergeSort.mp hs)
    exact declares_of_declared? hheader hm hdeclared

/-- The brace of a body comes right before the end of the header or after it. -/
theorem offset_le_of_bodyBrace {header : Cursor} {brace : Nat} (h : bodyBrace header = some brace) :
    header.offset ≤ brace + 1 := by
  unfold bodyBrace at h
  split at h
  · cases h
    omega
  · split at h
    · rename_i found hscan
      cases h
      obtain ⟨_, before, c, rest, -, hstep⟩ := exists_of_scanCode hscan
      unfold bodyStep at hstep
      split at hstep
      · cases hstep
        omega
      · cases hstep
    · cases h

/-- **A symbol's offsets lie in the source, in order**, and its positions are theirs. -/
theorem Declares.order (h : Declares source s start finish) :
    start ≤ finish ∧ finish ≤ source.length ∧
      s.span = ⟨positionOfOffset source start, positionOfOffset source finish⟩ := by
  obtain ⟨hheader, hm, hbrace, rfl⟩ := h
  rename_i header m brace
  obtain ⟨before, t, -, hsource, hstart, hoffset⟩ := exists_reads_of_mem_findAll hm
  have hreach := offset_le_of_bodyBrace hbrace
  have hlength := congrArg List.length hsource
  simp only [List.length_append] at hlength hoffset
  refine ⟨?_, ?_, rfl⟩
  all_goals
    unfold bodyEnd
    split
  · rename_i close hclose
    obtain ⟨inside, rest, -, rfl⟩ := exists_of_matchingBrace hclose
    omega
  · omega
  · rename_i close hclose
    obtain ⟨inside, rest, hinside, rfl⟩ := exists_of_matchingBrace hclose
    have hdrop := congrArg List.length hinside
    simp only [List.length_drop, List.length_append, List.length_cons] at hdrop
    omega
  · exact Nat.le_refl _

end GoSource

/-! ### The text of a symbol -/

/-- **The text of a reported symbol** is what stands in the source from the start of its declaration to its
end: whatever is cut out by the positions of two offsets is what stands between the offsets. -/
theorem text_of_reported :
    (∀ (content : List Char) (a b : Nat), a ≤ b → b ≤ content.length →
      textIn content ⟨positionOfOffset content a, positionOfOffset content b⟩ =
        (content.take b).drop a) ∧
    (∀ (doc : Document) (root : Option String) (found : List FlatSymbol),
      Script.symbols doc.text = .ok found → ∀ s ∈ found,
        ∃ start finish, Script.Declares doc.text.toList s start finish ∧ start ≤ finish ∧
          finish ≤ doc.text.toList.length ∧ (doc.unitAt s.name s.span root).text =
            String.ofList ((doc.text.toList.take finish).drop start)) ∧
    (∀ (doc : Document) (root : Option String) (found : List FlatSymbol),
      GoSource.symbols doc.text = .ok found → ∀ s ∈ found,
        ∃ start finish, GoSource.Declares doc.text.toList s start finish ∧ start ≤ finish ∧
          finish ≤ doc.text.toList.length ∧ (doc.unitAt s.name s.span root).text =
            String.ofList ((doc.text.toList.take finish).drop start)) := by
  have hcut : ∀ (doc : Document) (root : Option String) (s : FlatSymbol) (start finish : Nat),
      start ≤ finish → finish ≤ doc.text.toList.length →
      s.span = ⟨positionOfOffset doc.text.toList start, positionOfOffset doc.text.toList finish⟩ →
      (doc.unitAt s.name s.span root).text =
        String.ofList ((doc.text.toList.take finish).drop start) := by
    intro doc root s start finish hle hlength hspan
    rw [← textIn_eq_drop_take _ hle hlength, ← hspan]
    rfl
  refine ⟨fun content a b => textIn_eq_drop_take content, fun doc root found h s hs => ?_,
    fun doc root found h s hs => ?_⟩
  · obtain ⟨start, finish, hdeclares⟩ := Script.exists_declares h hs
    obtain ⟨hle, hlength, hspan⟩ := hdeclares.order
    exact ⟨start, finish, hdeclares, hle, hlength, hcut doc root s start finish hle hlength hspan⟩
  · obtain ⟨start, finish, hdeclares⟩ := GoSource.exists_declares h hs
    obtain ⟨hle, hlength, hspan⟩ := hdeclares.order
    exact ⟨start, finish, hdeclares, hle, hlength, hcut doc root s start finish hle hlength hspan⟩

/-- A class with an indented member. -/
def indentedMember : Document := ⟨"/a.ts", "typescript", "class A \x7b\n  m() \x7b\n  \x7d\n\x7d\n"⟩

/-- A function whose body is open up to the end of the source. -/
def openFunction : Document := ⟨"/a.go", "go", "package p\n\nfunc f() \x7b\n"⟩

theorem symbols_indentedMember : Script.symbols indentedMember.text =
    .ok [⟨"A", .class, .of 0 0 3 1⟩, ⟨"m", .method, .of 1 2 2 3⟩] := by
  refine Script.symbols_eq_of_collect (by decide +kernel) ?_ (by decide +kernel)
  decide +kernel

theorem symbols_openFunction : GoSource.symbols openFunction.text =
    .ok [⟨"f", .function, .of 2 0 3 0⟩] := by
  have hcollect : GoSource.collect openFunction.text.toList GoSource.headers [] =
      [⟨"f", .function, .of 2 0 3 0⟩] := by decide +kernel
  rw [GoSource.symbols, if_neg (by decide +kernel), hcollect, List.mergeSort_singleton]

/-- The texts of a member of a class and of a function whose body is not closed. -/
theorem text_of_reported_members :
    textIn "a\n\nb".toList ⟨positionOfOffset "a\n\nb".toList 1, positionOfOffset "a\n\nb".toList 4⟩ =
      "\n\nb".toList ∧
    (∃ start finish,
      Script.Declares indentedMember.text.toList ⟨"m", .method, .of 1 2 2 3⟩ start finish ∧
      start ≤ finish ∧ finish ≤ indentedMember.text.toList.length ∧
      (indentedMember.unitAt "m" (.of 1 2 2 3) none).text =
        String.ofList ((indentedMember.text.toList.take finish).drop start)) ∧
    (∃ start finish,
      GoSource.Declares openFunction.text.toList ⟨"f", .function, .of 2 0 3 0⟩ start finish ∧
      start ≤ finish ∧ finish ≤ openFunction.text.toList.length ∧
      (openFunction.unitAt "f" (.of 2 0 3 0) none).text =
        String.ofList ((openFunction.text.toList.take finish).drop start)) :=
  ⟨text_of_reported.1 "a\n\nb".toList 1 4 (by decide) (by decide),
    text_of_reported.2.1 indentedMember none _ symbols_indentedMember ⟨"m", .method, .of 1 2 2 3⟩
      (.tail _ (.head _)),
    text_of_reported.2.2 openFunction none _ symbols_openFunction ⟨"f", .function, .of 2 0 3 0⟩
      (.head _)⟩

/-- **The text of a member does not begin where the match of its header does**: the match begins with the
blanks before the member, which are not part of its text. -/
theorem text_of_indented_member :
    Script.symbols indentedMember.text =
      .ok [⟨"A", .class, .of 0 0 3 1⟩, ⟨"m", .method, .of 1 2 2 3⟩] ∧
    (Script.memberHeader.search (.ofOffset (indentedMember.text.toList.take 23) 9)).map
      (fun m => (m.start, m.captured, Script.declarationEnd
        (indentedMember.text.toList.drop (m.stop.offset - 1)) (m.stop.offset - 1))) =
      some (10, ["  ".toList, "m".toList], 21) ∧
    (indentedMember.unitAt "m" (.of 1 2 2 3) none).text = "m() \x7b\n  \x7d" ∧
    (indentedMember.text.toList.take 21).drop 10 = "  m() \x7b\n  \x7d".toList :=
  ⟨symbols_indentedMember, by decide +kernel, by decide +kernel, by decide +kernel⟩

end Vicinity
