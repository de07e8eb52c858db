import Vicinity.Proofs.Provider.Snapshots

/-!
# Files that cannot be read

A file that is missing, that is a directory, or whose bytes are no text has no text that a provider could
give. The provider of a workspace reports each of them when it is asked for the text. When it is asked for
the symbols it reports the missing file and the directory with the same cause; a file whose bytes are no
text it takes for one without symbols. What it has been asked before makes no difference, as long as the
disk does not change.

## What is proved

* `symbolsAfter_eq_error_iff`: which reading errors are passed on by the search for symbols.
* `askText_value`, `askSymbols_value`: what the provider answers, as told by the disk.
* `symbols_fail_iff`: when the symbols of a file fail, as told by its text.
* `symbols_of_noText`: a file whose bytes are no text is not reported.
-/

namespace Vicinity

namespace WorkspaceSettings

variable {settings : WorkspaceSettings} {disk : Disk} {s : WorkspaceState} {path : String}
  {symbolsOf : String → Except SourceError (List FlatSymbol)}

/-- The search for symbols passes on every error of reading but the one about bytes that are no text. -/
theorem symbolsAfter_eq_error_iff (symbolsOf : String → Except SourceError (List FlatSymbol))
    {found : Except ReadError String} {cause : ReadError} :
    symbolsAfter symbolsOf found = .error cause ↔ found = .error cause ∧ cause ≠ .notText := by
  cases found with
  | ok text => simp [symbolsAfter]
  | error e =>
    constructor
    · intro h
      cases e <;> cases h <;> exact ⟨rfl, by decide⟩
    · rintro ⟨h, hne⟩
      cases h
      cases cause with
      | notText => exact absurd rfl hne
      | missing => rfl
      | throughFile => rfl
      | isDirectory => rfl

/-- The provider gives the text that is on the disk, or says why there is none. -/
theorem askText_value (hs : settings.Faithful s) :
    (settings.provider.askText path s).1 =
      match s.disk.readText path with
      | .ok text => .ok text
      | .error e => .error (.unreadable path e) := by
  have hread : (read path s).1 = s.disk.readText path := by
    obtain ⟨hvalue, -, -⟩ := settled_read path s hs
    rw [hvalue, read_fresh]
  rw [← hread]
  exact congrArg Prod.fst (askText_run settings path s)

/-- The provider gives the symbols that the search finds on the disk, or says why it fails. -/
theorem askSymbols_value (hs : settings.Faithful s) (hreader : symbolReaderOfPath? path = some symbolsOf) :
    (settings.provider.askSymbols path s).1 =
      match symbolsAfter symbolsOf (s.disk.readText path) with
      | .ok symbols => .ok (some (nest symbols))
      | .error e => .error (.noSymbols path e) := by
  have hparse : (parse path s).1 = symbolsAfter symbolsOf (s.disk.readText path) := by
    obtain ⟨hvalue, -, -⟩ := settled_parse path s hs
    rw [hvalue, parse_fresh, hreader]
  rw [← hparse]
  exact congrArg Prod.fst (askSymbols_run settings path s)

theorem askText_eq_error_iff (hs : settings.Faithful s) {failure : ProviderFailure} :
    (settings.provider.askText path s).1 = .error failure ↔
      ∃ cause, failure = .unreadable path cause ∧ s.disk.readText path = .error cause := by
  rw [askText_value hs]
  cases s.disk.readText path with
  | ok text => simp
  | error e => simp [eq_comm]

theorem askSymbols_eq_error_iff (hs : settings.Faithful s)
    (hreader : symbolReaderOfPath? path = some symbolsOf) {failure : ProviderFailure} :
    (settings.provider.askSymbols path s).1 = .error failure ↔
      ∃ cause, failure = .noSymbols path cause ∧ s.disk.readText path = .error cause ∧
        cause ≠ .notText := by
  simp only [← symbolsAfter_eq_error_iff symbolsOf]
  rw [askSymbols_value hs hreader]
  cases symbolsAfter symbolsOf (s.disk.readText path) with
  | ok symbols => simp
  | error e => simp [eq_comm]

/-- **The symbols of a file fail exactly when its text does**, with the same cause, unless the file's bytes
are no text. Then the provider answers that there are no symbols, although it has no text to give. -/
theorem symbols_fail_iff (hreader : symbolReaderOfPath? path = some symbolsOf)
    (hreach : settings.provider.Reaches (.fresh disk) s) :
    (∀ failure, (settings.provider.askText path s).1 = .error failure ↔
      ∃ cause, failure = .unreadable path cause ∧ disk.readText path = .error cause) ∧
    (∀ failure, (settings.provider.askSymbols path s).1 = .error failure ↔
      ∃ cause, failure = .noSymbols path cause ∧
        (settings.provider.askText path s).1 = .error (.unreadable path cause) ∧
        ¬disk.HoldsNoText path) ∧
    (∀ text, (settings.provider.askText path s).1 = .ok text →
      (settings.provider.askSymbols path s).1 = .ok (some (nest (symbolsIn symbolsOf text)))) ∧
    (disk.HoldsNoText path →
      (settings.provider.askText path s).1 = .error (.unreadable path .notText) ∧
        (settings.provider.askSymbols path s).1 = .ok (some [])) := by
  obtain ⟨hs, rfl⟩ := faithful_of_reaches hreach
  have hcause : ∀ cause, (settings.provider.askText path s).1 = .error (.unreadable path cause) ↔
      s.disk.readText path = .error cause := by
    intro cause
    rw [askText_eq_error_iff hs]
    simp
  refine ⟨fun failure => askText_eq_error_iff hs, fun failure => ?_, fun text htext => ?_,
    fun hnoText => ?_⟩
  · rw [askSymbols_eq_error_iff hs hreader, ← Disk.readText_eq_notText_iff]
    refine exists_congr fun cause => and_congr_right fun _ => ?_
    rw [hcause]
    refine and_congr_right fun hread => ?_
    rw [hread, Except.error.injEq]
  · rw [askText_value hs] at htext
    rw [askSymbols_value hs hreader]
    cases hread : s.disk.readText path with
    | error e =>
      rw [hread] at htext
      cases htext
    | ok found =>
      rw [hread] at htext
      cases htext
      rfl
  · have hread := Disk.readText_eq_notText_iff.mpr hnoText
    refine ⟨(hcause .notText).mpr hread, ?_⟩
    rw [askSymbols_value hs hreader, hread]
    exact congrArg (fun forest => Except.ok (some forest)) nest_nil

/-- A missing file is reported, also when it is asked for again. -/
theorem symbols_fail_missing :
    symbolReaderOfPath? "/a.ts" = some Script.symbols ∧
    wholeDisk.provider.Reaches (.fresh {}) (wholeDisk.provider.askSymbols "/a.ts" (.fresh {})).2 ∧
    (wholeDisk.provider.askSymbols "/a.ts" (wholeDisk.provider.askSymbols "/a.ts" (.fresh {})).2).1 =
      .error (.noSymbols "/a.ts" .missing) := by
  have hreach : wholeDisk.provider.Reaches (.fresh {})
      (wholeDisk.provider.askSymbols "/a.ts" (.fresh {})).2 := .symbols "/a.ts" .refl
  have hmissing : ({} : Disk).readText "/a.ts" = .error .missing := by decide +kernel
  obtain ⟨htext, hsymbols, -, -⟩ := symbols_fail_iff symbolReaderOfPath?_oneFile hreach
  have hnoText : ¬({} : Disk).HoldsNoText "/a.ts" := by
    rw [← Disk.readText_eq_notText_iff, hmissing]
    decide
  refine ⟨symbolReaderOfPath?_oneFile, hreach, (hsymbols _).mpr ⟨.missing, rfl, ?_, hnoText⟩⟩
  exact (htext _).mpr ⟨.missing, rfl, hmissing⟩

/-- **A file whose bytes are no text is not reported when its symbols are asked for**, although its text
cannot be given. -/
theorem symbols_of_noText :
    symbolReaderOfPath? "/a.ts" = some Script.symbols ∧
    (wholeDisk.provider.askText "/a.ts" (.fresh (oneFile ⟨#[0xff]⟩))).1 =
      .error (.unreadable "/a.ts" .notText) ∧
    (wholeDisk.provider.askSymbols "/a.ts" (.fresh (oneFile ⟨#[0xff]⟩))).1 = .ok (some []) := by
  have hnoText : (oneFile ⟨#[0xff]⟩).readText "/a.ts" = .error .notText := by decide +kernel
  have hfresh := wholeDisk.faithful_fresh (oneFile ⟨#[0xff]⟩)
  refine ⟨symbolReaderOfPath?_oneFile, ?_, ?_⟩
  · rw [askText_value hfresh, WorkspaceState.fresh_disk, hnoText]
  · rw [askSymbols_value hfresh symbolReaderOfPath?_oneFile, WorkspaceState.fresh_disk, hnoText]
    exact congrArg (fun forest => Except.ok (some forest)) nest_nil

end WorkspaceSettings

end Vicinity
