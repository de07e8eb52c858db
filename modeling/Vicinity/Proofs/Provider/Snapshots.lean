import Vicinity.Proofs.Disk.Trees
import Vicinity.Proofs.Provider.Memory

/-!
# Text and symbols of the same moment

Files may change between the questions that are put to the provider of a workspace. The text of a file
and its symbols are remembered separately, each from when they were first found. They belong together:
whatever changes in between, the symbols that the provider gives are those of the text that it gives,
unless the symbols were asked for while the file could not be read as text. Then the provider answers
that there are none, and keeps to it when the file has become readable.

## What is proved

* `Matched`: the symbols that are remembered of a file are those of the text that is remembered of it;
  this is kept by all that the provider does, but for looking for symbols in a file that is not text.
* `matched_after`, `parsed_after`: what is remembered after a sequence of events.
* `symbols_match_text`: how the symbols and the text of a file are related in every run.
-/

namespace Vicinity

/-- Something that happens to the provider of a workspace or to its disk. -/
inductive WorkspaceEvent where
  /-- A file is written with some bytes, whatever was there before. -/
  | write (path : String) (bytes : ByteArray)
  /-- What is at a path is taken away. -/
  | delete (path : String)
  /-- A question is put to the provider. -/
  | ask (call : ProviderCall)

namespace WorkspaceSettings

variable (settings : WorkspaceSettings)

/-- The state after an event. -/
def afterEvent (s : WorkspaceState) : WorkspaceEvent → WorkspaceState
  | .write path bytes => { s with disk := s.disk.put path (.file bytes) }
  | .delete path => { s with disk := s.disk.delete path }
  | .ask call => (settings.provider.answer call s).2

/-- The state after a sequence of events that begins with a disk of which nothing is known yet. -/
def after (disk : Disk) (events : List WorkspaceEvent) : WorkspaceState :=
  events.foldl settings.afterEvent (.fresh disk)

/-- A question is put and gets an answer in a sequence of events. -/
def Answered (disk : Disk) (events : List WorkspaceEvent) (call : ProviderCall)
    (answer : ProviderAnswer) : Prop :=
  ∃ before later, events = before ++ .ask call :: later ∧
    (settings.provider.answer call (settings.after disk before)).1 = answer

/-- The symbols of a file are asked for while it cannot be read because its bytes are not text. -/
def AskedWhileNoText (disk : Disk) (events : List WorkspaceEvent) (path : String) : Prop :=
  ∃ before later, events = before ++ .ask (.symbols path) :: later ∧
    (read path (settings.after disk before)).1 = .error .notText

variable {settings} {disk : Disk} {path : String}

theorem after_append (events more : List WorkspaceEvent) :
    settings.after disk (events ++ more) =
      more.foldl settings.afterEvent (settings.after disk events) :=
  List.foldl_append

theorem after_append_singleton (events : List WorkspaceEvent) (event : WorkspaceEvent) :
    settings.after disk (events ++ [event]) =
      settings.afterEvent (settings.after disk events) event := by
  rw [after_append]
  rfl

/-! ### Answers and states -/

variable (settings) in
theorem askSymbols_run (path : String) (s : WorkspaceState) :
    settings.provider.askSymbols path s =
      ((match (parse path s).1 with
        | .ok symbols => .ok (some (nest symbols))
        | .error e => .error (.noSymbols path e)), (parse path s).2) := by
  unfold provider
  dsimp only
  rw [bind_run]
  rcases parse path s with ⟨e | symbols, t⟩ <;> rfl

variable (settings) in
theorem askText_run (path : String) (s : WorkspaceState) :
    settings.provider.askText path s =
      ((match (read path s).1 with
        | .ok text => .ok text
        | .error e => .error (.unreadable path e)), (read path s).2) := by
  unfold provider
  dsimp only
  rw [bind_run]
  rcases read path s with ⟨e | text, t⟩ <;> rfl

theorem answer_symbols_run (path : String) (s : WorkspaceState) :
    settings.provider.answer (.symbols path) s =
      (.symbols (match (parse path s).1 with
        | .ok symbols => .ok (some (nest symbols))
        | .error e => .error (.noSymbols path e)), (parse path s).2) :=
  congrArg (Prod.map ProviderAnswer.symbols id) (askSymbols_run settings path s)

theorem answer_text_run (path : String) (s : WorkspaceState) :
    settings.provider.answer (.text path) s =
      (.text (match (read path s).1 with
        | .ok text => .ok text
        | .error e => .error (.unreadable path e)), (read path s).2) :=
  congrArg (Prod.map ProviderAnswer.text id) (askText_run settings path s)

variable (settings) in
/-- A question about a position leads to a state to which reading and consulting the index leads. -/
theorem exists_consults_of_answer (what : Lookup) (path : String) (position : Position)
    (s : WorkspaceState) :
    ∃ m : WorkspaceM (Except ReadError (List Location)), settings.Consults m ∧
      (settings.provider.answer (.locations what path position) s).2 = (m s).2 := by
  refine ⟨settings.locations what path position, consults_locations what path position, ?_⟩
  have hask : (settings.provider.askLocations what path position s).2 =
      (settings.locations what path position s).2 := by
    unfold provider
    dsimp only
    rw [bind_run]
    rcases settings.locations what path position s with ⟨e | found, t⟩ <;> rfl
  exact hask

variable (settings) in
/-- What is remembered stays remembered, and questions do not change the disk. -/
theorem keeps_answer (call : ProviderCall) (s : WorkspaceState) :
    s.Keeps (settings.provider.answer call s).2 := by
  cases call with
  | symbols path =>
    rw [answer_symbols_run]
    exact keeps_parse path s
  | locations what path position =>
    obtain ⟨m, hm, hstate⟩ := exists_consults_of_answer settings what path position s
    rw [hstate]
    exact hm.keeps s
  | text path =>
    rw [answer_text_run]
    exact keeps_read path s

theorem read_of_lookup {s : WorkspaceState} {text : String} (h : s.texts.lookup path = some text) :
    read path s = (.ok text, s) := by
  rw [read_run, h]

/-- A text that is read is remembered. -/
theorem lookup_of_read {s : WorkspaceState} {text : String} (h : (read path s).1 = .ok text) :
    (read path s).2.texts.lookup path = some text := by
  rw [read_run] at h ⊢
  cases hlook : s.texts.lookup path with
  | some found =>
    rw [hlook] at h
    cases h
    exact hlook
  | none =>
    rw [hlook] at h
    cases hread : s.disk.readText path with
    | error e =>
      rw [hread] at h
      cases h
    | ok found =>
      rw [hread] at h
      cases h
      exact List.lookup_cons_self

/-- Symbols that are found are remembered. -/
theorem lookup_of_parse {s : WorkspaceState} {symbols : List FlatSymbol}
    (h : (parse path s).1 = .ok symbols) : (parse path s).2.parsed.lookup path = some symbols := by
  rw [parse_run] at h ⊢
  cases hlook : s.parsed.lookup path with
  | some found =>
    rw [hlook] at h
    cases h
    exact hlook
  | none =>
    rw [hlook] at h
    cases hreader : symbolReaderOfPath? path with
    | none =>
      rw [hreader] at h
      cases h
      exact List.lookup_cons_self
    | some symbolsOf =>
      rw [hreader] at h
      dsimp only at h ⊢
      cases hafter : symbolsAfter symbolsOf (read path s).1 with
      | error e =>
        rw [hafter] at h
        cases h
      | ok found =>
        rw [hafter] at h
        cases h
        exact List.lookup_cons_self

/-! ### Symbols and texts that belong together -/

/-- The symbols that are remembered of a file are those of the text that is remembered of it. -/
def Matched (path : String) (symbolsOf : String → Except SourceError (List FlatSymbol))
    (s : WorkspaceState) : Prop :=
  ∀ symbols, s.parsed.lookup path = some symbols →
    ∃ text, s.texts.lookup path = some text ∧ symbols = symbolsIn symbolsOf text

variable {symbolsOf : String → Except SourceError (List FlatSymbol)}

theorem Matched.read {s : WorkspaceState} (hs : Matched path symbolsOf s) (other : String) :
    Matched path symbolsOf (read other s).2 := by
  intro symbols hsymbols
  rw [parsed_read] at hsymbols
  obtain ⟨text, htext, rfl⟩ := hs symbols hsymbols
  exact ⟨text, (keeps_read other s).texts path text htext, rfl⟩

/-- Looking for the symbols of one file does not change what is remembered of another one. -/
theorem lookup_parse_of_ne {other : String} (hne : path ≠ other) (s : WorkspaceState) :
    (parse other s).2.parsed.lookup path = s.parsed.lookup path := by
  have hcons : ∀ symbols known, List.lookup path ((other, symbols) :: known) =
      List.lookup (β := List FlatSymbol) path known := by
    intro symbols known
    rw [List.lookup_cons, beq_false_of_ne hne]
  rw [parse_run]
  cases s.parsed.lookup other with
  | some symbols => rfl
  | none =>
    cases symbolReaderOfPath? other with
    | none => exact hcons [] s.parsed
    | some symbolsOf =>
      dsimp only
      cases symbolsAfter symbolsOf (read other s).1 with
      | error e => exact congrArg _ (parsed_read other s)
      | ok symbols => exact (hcons symbols _).trans (congrArg _ (parsed_read other s))

/-- Looking for symbols keeps symbols and texts together, except in a file that is not text. -/
theorem Matched.parse {s : WorkspaceState} (hs : Matched path symbolsOf s)
    (hreader : symbolReaderOfPath? path = some symbolsOf) {other : String}
    (htext : other = path → (WorkspaceSettings.read path s).1 ≠ .error .notText) :
    Matched path symbolsOf (parse other s).2 := by
  by_cases hother : path = other
  · subst hother
    have htext := htext rfl
    rw [parse_run, hreader]
    cases hlook : s.parsed.lookup path with
    | some symbols => exact hs
    | none =>
      dsimp only
      cases hread : (WorkspaceSettings.read path s).1 with
      | ok text =>
        intro symbols hsymbols
        rw [symbolsAfter, List.lookup_cons_self] at hsymbols
        cases hsymbols
        exact ⟨text, lookup_of_read hread, rfl⟩
      | error e =>
        cases e with
        | notText => exact absurd hread htext
        | missing => exact hs.read path
        | throughFile => exact hs.read path
        | isDirectory => exact hs.read path
  · intro symbols hsymbols
    rw [lookup_parse_of_ne hother] at hsymbols
    obtain ⟨text, htext, rfl⟩ := hs symbols hsymbols
    exact ⟨text, (keeps_parse other s).texts path text htext, rfl⟩

/-- An index is made of files that could be read as text. -/
theorem Matched.indexed {s : WorkspaceState} (hs : Matched path symbolsOf s)
    (hreader : symbolReaderOfPath? path = some symbolsOf) (other : String) :
    Matched path symbolsOf (indexed other s).2 := by
  rw [indexed_run]
  cases hread : (WorkspaceSettings.read other s).1 with
  | error e => exact hs.read other
  | ok text =>
    refine (hs.read other).parse hreader fun heq hnot => ?_
    subst heq
    rw [read_of_lookup (lookup_of_read hread)] at hnot
    cases hnot

theorem Matched.consults {α : Type} {m : WorkspaceM α} (hm : settings.Consults m)
    (hreader : symbolReaderOfPath? path = some symbolsOf) {s : WorkspaceState}
    (hs : Matched path symbolsOf s) : Matched path symbolsOf (m s).2 := by
  induction hm generalizing s with
  | pure a => exact hs
  | read other => exact hs.read other
  | indexed other => exact hs.indexed hreader other
  | bind hm hf ihm ihf => exact ihf _ (ihm hs)
  | index h ih =>
    rw [index_run]
    cases s.index with
    | some index => exact hs
    | none =>
      generalize settings.indexPaths s.disk = paths
      exact ih paths hs

/-- A question keeps symbols and texts together, but for the symbols of a file that is not text. -/
theorem Matched.answer {s : WorkspaceState} (hs : Matched path symbolsOf s)
    (hreader : symbolReaderOfPath? path = some symbolsOf) {call : ProviderCall}
    (hcall : call = .symbols path → (WorkspaceSettings.read path s).1 ≠ .error .notText) :
    Matched path symbolsOf (settings.provider.answer call s).2 := by
  cases call with
  | symbols other =>
    rw [answer_symbols_run]
    exact hs.parse hreader fun heq => hcall (heq ▸ rfl)
  | locations what other position =>
    obtain ⟨m, hm, hstate⟩ := exists_consults_of_answer settings what other position s
    rw [hstate]
    exact hs.consults hm hreader
  | text other =>
    rw [answer_text_run]
    exact hs.read other

/-! ### Sequences of events -/

theorem askedWhileNoText_append_singleton {events : List WorkspaceEvent} {event : WorkspaceEvent} :
    settings.AskedWhileNoText disk (events ++ [event]) path ↔
      settings.AskedWhileNoText disk events path ∨ event = .ask (.symbols path) ∧
        (read path (settings.after disk events)).1 = .error .notText := by
  constructor
  · rintro ⟨before, later, hsplit, hread⟩
    rcases List.eq_nil_or_concat later with rfl | ⟨later, last, rfl⟩
    · obtain ⟨rfl, heq⟩ := List.append_inj' hsplit rfl
      exact .inr ⟨List.singleton_inj.mp heq, hread⟩
    · rw [List.concat_eq_append, ← List.cons_append, ← List.append_assoc] at hsplit
      obtain ⟨rfl, -⟩ := List.append_inj' hsplit rfl
      exact .inl ⟨before, later, rfl, hread⟩
  · rintro (⟨before, later, rfl, hread⟩ | ⟨rfl, hread⟩)
    · exact ⟨before, later ++ [event], by simp, hread⟩
    · exact ⟨events, [], rfl, hread⟩

/-- What is remembered stays remembered in a sequence of events. -/
theorem lookup_foldl_afterEvent {s : WorkspaceState} (events : List WorkspaceEvent) :
    (∀ text, s.texts.lookup path = some text →
      (events.foldl settings.afterEvent s).texts.lookup path = some text) ∧
    ∀ symbols, s.parsed.lookup path = some symbols →
      (events.foldl settings.afterEvent s).parsed.lookup path = some symbols := by
  induction events generalizing s with
  | nil => exact ⟨fun _ h => h, fun _ h => h⟩
  | cons event events ih =>
    obtain ⟨htexts, hparsed⟩ := ih (s := settings.afterEvent s event)
    cases event with
    | write other bytes => exact ⟨htexts, hparsed⟩
    | delete other => exact ⟨htexts, hparsed⟩
    | ask call =>
      have hkeeps := keeps_answer settings call s
      exact ⟨fun text h => htexts text (hkeeps.texts path text h),
        fun symbols h => hparsed symbols (hkeeps.parsed path symbols h)⟩

/-- A file that is not text is taken to have no symbols, if nothing else is remembered. -/
theorem parse_of_notText {s : WorkspaceState} (hs : Matched path symbolsOf s)
    (hreader : symbolReaderOfPath? path = some symbolsOf)
    (hread : (read path s).1 = .error .notText) : (parse path s).1 = .ok [] := by
  have hnone : s.parsed.lookup path = none := by
    cases hlook : s.parsed.lookup path with
    | none => rfl
    | some symbols =>
      obtain ⟨text, htext, -⟩ := hs symbols hlook
      rw [read_of_lookup htext] at hread
      cases hread
  rw [parse_run, hnone, hreader]
  dsimp only
  rw [hread]
  rfl

variable (settings) (disk) in
/-- If the symbols of a file were asked for while it was not text, then it is remembered to have none,
and otherwise symbols and text belong together. -/
theorem remembered_after (hreader : symbolReaderOfPath? path = some symbolsOf)
    (events : List WorkspaceEvent) :
    (settings.AskedWhileNoText disk events path →
      (settings.after disk events).parsed.lookup path = some []) ∧
    (¬settings.AskedWhileNoText disk events path →
      Matched path symbolsOf (settings.after disk events)) := by
  induction events using List.reverseRecOn with
  | nil =>
    refine ⟨?_, fun _ symbols h => by cases h⟩
    rintro ⟨before, later, hsplit, -⟩
    exact absurd hsplit (by simp)
  | append_singleton events event ih =>
    obtain ⟨hasked, hmatched⟩ := ih
    rw [askedWhileNoText_append_singleton, after_append_singleton]
    cases event with
    | write other bytes =>
      exact ⟨fun h => hasked (h.resolve_right fun h => by cases h.1),
        fun h => hmatched fun hbefore => h (.inl hbefore)⟩
    | delete other =>
      exact ⟨fun h => hasked (h.resolve_right fun h => by cases h.1),
        fun h => hmatched fun hbefore => h (.inl hbefore)⟩
    | ask call =>
      have hkeeps := keeps_answer settings call (settings.after disk events)
      -- Symbols and text part only when the symbols are asked for while the file is not text.
      refine ⟨fun h => ?_, fun h => ?_⟩
      · by_cases hbefore : settings.AskedWhileNoText disk events path
        · exact hkeeps.parsed path [] (hasked hbefore)
        · obtain ⟨hcall, hread⟩ := h.resolve_left hbefore
          cases hcall
          have hparse := parse_of_notText (hmatched hbefore) hreader hread
          show (settings.provider.answer (.symbols path) _).2.parsed.lookup path = some []
          rw [answer_symbols_run]
          exact lookup_of_parse hparse
      · obtain ⟨hbefore, hnew⟩ := not_or.mp h
        exact (hmatched hbefore).answer hreader fun hcall hread => hnew ⟨hcall ▸ rfl, hread⟩

/-- A text that was given is still remembered at the end. -/
theorem Answered.lookup_text {events : List WorkspaceEvent} {text : String}
    (h : settings.Answered disk events (.text path) (.text (.ok text))) :
    (settings.after disk events).texts.lookup path = some text := by
  obtain ⟨before, later, rfl, hanswer⟩ := h
  rw [answer_text_run] at hanswer
  have hread : (read path (settings.after disk before)).1 = .ok text := by
    cases hread : (read path (settings.after disk before)).1 with
    | error e =>
      rw [hread] at hanswer
      cases hanswer
    | ok found =>
      rw [hread] at hanswer
      cases hanswer
      rfl
  rw [after_append, List.foldl_cons]
  refine (lookup_foldl_afterEvent later).1 text ?_
  show (settings.provider.answer (.text path) _).2.texts.lookup path = some text
  rw [answer_text_run]
  exact lookup_of_read hread

/-- Symbols that were given are still remembered at the end. -/
theorem Answered.lookup_symbols {events : List WorkspaceEvent} {forest : List Symbol}
    (h : settings.Answered disk events (.symbols path) (.symbols (.ok (some forest)))) :
    ∃ symbols, (settings.after disk events).parsed.lookup path = some symbols ∧
      forest = nest symbols := by
  obtain ⟨before, later, rfl, hanswer⟩ := h
  rw [answer_symbols_run] at hanswer
  cases hparse : (parse path (settings.after disk before)).1 with
  | error e =>
    rw [hparse] at hanswer
    cases hanswer
  | ok symbols =>
    rw [hparse] at hanswer
    cases hanswer
    refine ⟨symbols, ?_, rfl⟩
    rw [after_append, List.foldl_cons]
    refine (lookup_foldl_afterEvent later).2 symbols ?_
    show (settings.provider.answer (.symbols path) _).2.parsed.lookup path = some symbols
    rw [answer_symbols_run]
    exact lookup_of_parse hparse

theorem nest_nil : nest [] = [] := by
  simp [nest, nestOrdered, closeAll]

/-- **The symbols that a provider gives of a file are those of the text that it gives of it**, however
the disk changes between its questions, exactly unless they were asked for while the file was not text;
then there are none. -/
theorem symbols_match_text {events : List WorkspaceEvent} {text : String} {forest : List Symbol}
    (hreader : symbolReaderOfPath? path = some symbolsOf)
    (htext : settings.Answered disk events (.text path) (.text (.ok text)))
    (hsymbols : settings.Answered disk events (.symbols path) (.symbols (.ok (some forest)))) :
    (¬settings.AskedWhileNoText disk events path → forest = nest (symbolsIn symbolsOf text)) ∧
      (settings.AskedWhileNoText disk events path → forest = []) := by
  obtain ⟨hasked, hmatched⟩ := remembered_after settings disk hreader events
  obtain ⟨symbols, hlook, rfl⟩ := hsymbols.lookup_symbols
  refine ⟨fun h => ?_, fun h => ?_⟩
  · obtain ⟨found, hfound, rfl⟩ := hmatched h symbols hlook
    rw [htext.lookup_text] at hfound
    cases hfound
    rfl
  · rw [hasked h] at hlook
    cases hlook
    exact nest_nil

/-! ### A file that changes -/

/-- The workspace that is the whole disk. -/
def wholeDisk : WorkspaceSettings := ⟨"/", [], 2000⟩

/-- A disk with one file, `/a.ts`. -/
def oneFile (bytes : ByteArray) : Disk := { root := .directory [("a.ts", .file bytes)] }

/-- A file whose text and symbols are asked for, with other bytes written in between. -/
def rewriting : List WorkspaceEvent :=
  [.ask (.text "/a.ts"), .write "/a.ts" ⟨#[0xff]⟩, .ask (.symbols "/a.ts")]

/-- A file whose symbols are asked for before its bytes are text, and whose text is asked for
afterwards. -/
def mending : List WorkspaceEvent :=
  [.ask (.symbols "/a.ts"), .write "/a.ts" "type A = B".toUTF8, .ask (.text "/a.ts")]

theorem symbolReaderOfPath?_oneFile : symbolReaderOfPath? "/a.ts" = some Script.symbols := by
  have hlanguage : Language.ofPath? "/a.ts" = some .typescript := by decide +kernel
  rw [symbolReaderOfPath?, hlanguage]
  rfl

theorem segmentsOf_oneFile (disk : Disk) : disk.segmentsOf "/a.ts" = ["a.ts"] := by
  rw [Disk.segmentsOf_of_isAbsolute (by decide +kernel)]
  decide +kernel

theorem readText_oneFile : (oneFile "type A = B".toUTF8).readText "/a.ts" = .ok "type A = B" := by
  rw [Disk.readText, Disk.entry, segmentsOf_oneFile]
  exact Disk.decode_toUTF8 (by decide)

theorem symbols_oneFile :
    nest (symbolsIn Script.symbols "type A = B") = [⟨"A", .variable, .of 0 0 0 10, []⟩] := by
  have hfound : symbolsIn Script.symbols "type A = B" = [⟨"A", .variable, .of 0 0 0 10⟩] := by
    decide +kernel
  rw [hfound]
  simp [nest, nestOrdered, closeUntil, closeAll, OpenSymbol.close]

/-- The symbols are those of the text that was read first, although the file is no text any more. -/
theorem symbols_match_text_rewriting :
    wholeDisk.Answered (oneFile "type A = B".toUTF8) rewriting (.text "/a.ts")
        (.text (.ok "type A = B")) ∧
      wholeDisk.Answered (oneFile "type A = B".toUTF8) rewriting (.symbols "/a.ts")
        (.symbols (.ok (some [⟨"A", .variable, .of 0 0 0 10, []⟩]))) ∧
      ¬wholeDisk.AskedWhileNoText (oneFile "type A = B".toUTF8) rewriting "/a.ts" ∧
      [⟨"A", .variable, .of 0 0 0 10, []⟩] = nest (symbolsIn Script.symbols "type A = B") := by
  have hfirst : read "/a.ts" (.fresh (oneFile "type A = B".toUTF8)) =
      (.ok "type A = B", ⟨oneFile "type A = B".toUTF8, [("/a.ts", "type A = B")], [], none⟩) := by
    rw [read_run, WorkspaceState.fresh_texts, WorkspaceState.fresh_disk, readText_oneFile]
    rfl
  have hsecond : wholeDisk.after (oneFile "type A = B".toUTF8)
      [.ask (.text "/a.ts"), .write "/a.ts" ⟨#[0xff]⟩] =
        ⟨(oneFile "type A = B".toUTF8).put "/a.ts" (.file ⟨#[0xff]⟩),
          [("/a.ts", "type A = B")], [], none⟩ := by
    simp only [after, List.foldl_cons, List.foldl_nil, afterEvent, answer_text_run, hfirst]
  have hread : read "/a.ts" ⟨(oneFile "type A = B".toUTF8).put "/a.ts" (.file ⟨#[0xff]⟩),
      [("/a.ts", "type A = B")], [], none⟩ = (.ok "type A = B", _) := read_of_lookup rfl
  have htext : wholeDisk.Answered (oneFile "type A = B".toUTF8) rewriting (.text "/a.ts")
      (.text (.ok "type A = B")) := by
    refine ⟨[], _, rfl, ?_⟩
    rw [answer_text_run, after, List.foldl_nil, hfirst]
  have hsymbols : wholeDisk.Answered (oneFile "type A = B".toUTF8) rewriting (.symbols "/a.ts")
      (.symbols (.ok (some [⟨"A", .variable, .of 0 0 0 10, []⟩]))) := by
    refine ⟨[_, _], [], rfl, ?_⟩
    rw [answer_symbols_run, hsecond, parse_run, hread, symbolReaderOfPath?_oneFile, ← symbols_oneFile]
    rfl
  have hasked : ¬wholeDisk.AskedWhileNoText (oneFile "type A = B".toUTF8) rewriting "/a.ts" := by
    rintro ⟨before, later, hsplit, hnot⟩
    rcases before with _ | ⟨first, _ | ⟨second, _ | ⟨third, before⟩⟩⟩ <;>
      simp [rewriting] at hsplit
    obtain ⟨rfl, rfl, -⟩ := hsplit
    rw [hsecond, hread] at hnot
    cases hnot
  exact ⟨htext, hsymbols, hasked,
    (symbols_match_text symbolReaderOfPath?_oneFile htext hsymbols).1 hasked⟩

/-- **A file that could not be read as text when its symbols were asked for has none for good**, also
when its text is given later. -/
theorem symbols_of_mended_file :
    wholeDisk.Answered (oneFile ⟨#[0xff]⟩) mending (.symbols "/a.ts") (.symbols (.ok (some []))) ∧
      wholeDisk.Answered (oneFile ⟨#[0xff]⟩) mending (.text "/a.ts") (.text (.ok "type A = B")) ∧
      symbolReaderOfPath? "/a.ts" = some Script.symbols ∧
      nest (symbolsIn Script.symbols "type A = B") = [⟨"A", .variable, .of 0 0 0 10, []⟩] := by
  have hnoText : (oneFile ⟨#[0xff]⟩).readText "/a.ts" = .error .notText := by decide +kernel
  have hfirst : parse "/a.ts" (.fresh (oneFile ⟨#[0xff]⟩)) =
      (.ok [], ⟨oneFile ⟨#[0xff]⟩, [], [("/a.ts", [])], none⟩) := by
    rw [parse_run, read_run, WorkspaceState.fresh_texts, WorkspaceState.fresh_disk,
      WorkspaceState.fresh_parsed, hnoText, symbolReaderOfPath?_oneFile]
    rfl
  have hsecond : wholeDisk.after (oneFile ⟨#[0xff]⟩)
      [.ask (.symbols "/a.ts"), .write "/a.ts" "type A = B".toUTF8] =
        ⟨(oneFile ⟨#[0xff]⟩).put "/a.ts" (.file "type A = B".toUTF8), [], [("/a.ts", [])], none⟩ := by
    simp only [after, List.foldl_cons, List.foldl_nil, afterEvent, answer_symbols_run, hfirst]
  have hreadText : ((oneFile ⟨#[0xff]⟩).put "/a.ts" (.file "type A = B".toUTF8)).readText "/a.ts" =
      .ok "type A = B" := by
    rw [Disk.readText_put (by rw [segmentsOf_oneFile]; decide)]
    exact Disk.decode_toUTF8 (by decide)
  refine ⟨⟨[], _, rfl, ?_⟩, ⟨[_, _], [], rfl, ?_⟩, symbolReaderOfPath?_oneFile, symbols_oneFile⟩
  · rw [answer_symbols_run, after, List.foldl_nil, hfirst]
    dsimp only
    rw [nest_nil]
  · rw [answer_text_run, read_run, hsecond]
    dsimp only
    rw [List.lookup_nil, hreadText]

end WorkspaceSettings

end Vicinity
