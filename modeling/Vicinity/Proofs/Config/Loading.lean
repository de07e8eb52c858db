import Vicinity.CommandLine
import Vicinity.Config.Check
import Vicinity.Proofs.Disk.Reading
import Mathlib.Data.List.Basic

/-!
# Settings that are loaded

However the settings in a file are written, those that are loaded are within their bounds. If they
cannot be loaded the fault is reported to the user, and the program ends with the exit code for wrong
settings; but for files of which the system does not say that they are there, for files whose bytes are
no text, and for messages that cannot be printed.

Of the libraries it is assumed that the reader of YAML fails only for texts that are no YAML, and that the
check of the settings keeps to the bounds that are declared.

## What is proved

* `keepsBounds_ofRecord`: the program's own check keeps to the bounds.
* `inBounds_of_load`: settings that are loaded are within their bounds.
* `isReported_iff`: which faults are reported.
* `holdsNoText_of_escapes`, `escapes_of_holdsNoText`: on a disk, files that are no text are not reported.
* `exitCode_of_readsConfig`: how a run ends whose settings cannot be loaded.
* `load_or_report`: these together.
-/

namespace Vicinity

/-! ### Libraries -/

namespace ConfigLibraries

/-- The reader of YAML fails only for texts that are no YAML. -/
def FailsAsMalformed (libraries : ConfigLibraries) : Prop :=
  ∀ text fault, libraries.parse text = .error fault → fault = .malformed

/-- The check of the settings keeps to the declared bounds: a number in settings that pass it is the one
that holds if nothing is set, which is not checked, or it is within its bounds. -/
def KeepsBounds (libraries : ConfigLibraries) : Prop :=
  ∀ entries config, libraries.validate entries = .ok config →
    ∀ number ∈ Config.numbers, number.2 config = number.2 {} ∨ number.1.Contains (number.2 config)

end ConfigLibraries

/-! ### Bounds -/

namespace Config

/-- The numbers among the settings are within their bounds. -/
structure InBounds (config : Config) : Prop where
  depth : 0 ≤ config.depth ∧ config.depth ≤ 10
  focusRadius : 0 ≤ config.focusRadius ∧ config.focusRadius ≤ 50
  limit : 1 ≤ config.fileTree.limit ∧ config.fileTree.limit ≤ 10000

theorem inBounds_iff {config : Config} :
    config.InBounds ↔ ∀ number ∈ numbers, number.1.Contains (number.2 config) := by
  simp only [numbers, List.forall_mem_cons]
  exact ⟨fun h => ⟨h.depth, h.focusRadius, h.limit, by simp⟩, fun h => ⟨h.1, h.2.1, h.2.2.1⟩⟩

/-- What holds if nothing is set is within the bounds. -/
theorem inBounds_default : InBounds {} := ⟨by decide, by decide, by decide⟩

/-- **Settings that have been checked are within their bounds.** -/
theorem inBounds_of_validate {libraries : ConfigLibraries} (h : libraries.KeepsBounds)
    {entries : List (Datum × Datum)} {config : Config}
    (hvalidate : libraries.validate entries = .ok config) : config.InBounds := by
  rw [inBounds_iff]
  intro number hnumber
  rcases h entries config hvalidate number hnumber with hdefault | hbounds
  · rw [hdefault]
    exact inBounds_iff.mp inBounds_default number hnumber
  · exact hbounds

end Config

namespace Checked

variable {α β : Type}

theorem apply_eq_ok {f : Checked (α → β)} {a : Checked α} {b : β} :
    apply f a = .ok b ↔ ∃ g x, f = .ok g ∧ a = .ok x ∧ g x = b := by
  constructor
  · intro h
    cases f with
    | error e => cases a <;> cases h
    | ok g =>
      cases a with
      | error e => cases h
      | ok x =>
        cases h
        exact ⟨g, x, rfl, rfl, rfl⟩
  · rintro ⟨g, x, rfl, rfl, rfl⟩
    rfl

theorem eq_ok_of_below {step : DatumStep} {a : Checked α} {x : α} (h : a.below step = .ok x) :
    a = .ok x := by
  cases a with
  | ok y => exact h
  | error e => cases h

end Checked

/-! ### The program's own check -/

theorem contains_of_boundedInt {bounds : Bounds} {n : Int} {d : Datum}
    (h : boundedInt bounds d = .ok n) : bounds.Contains n := by
  unfold boundedInt at h
  split at h
  · cases h
  · split at h
    · cases h
    · split at h
      · cases h
      · cases h
        exact ⟨by omega, by omega⟩

/-- A setting is what holds if it is not there, or what has been read. -/
theorem setting_eq_ok {α : Type} {entries : List (Datum × Datum)} {key : String} {default a : α}
    {read : Datum → Checked α} (h : setting entries key default read = .ok a) :
    a = default ∨ ∃ d, read d = .ok a := by
  unfold setting at h
  split at h
  · cases h
    exact .inl rfl
  · exact .inr ⟨_, Checked.eq_ok_of_below h⟩

theorem contains_of_setting {entries : List (Datum × Datum)} {key : String} {bounds : Bounds}
    {default n : Int} (h : setting entries key default (boundedInt bounds) = .ok n) :
    n = default ∨ bounds.Contains n := by
  rcases setting_eq_ok h with rfl | ⟨d, hread⟩
  · exact .inl rfl
  · exact .inr (contains_of_boundedInt hread)

theorem TreeConfig.contains_of_ofRecord {entries : List (Datum × Datum)} {config : TreeConfig}
    (h : TreeConfig.ofRecord entries = .ok config) :
    config.limit = ({} : TreeConfig).limit ∨ TreeConfig.limitBounds.Contains config.limit := by
  unfold TreeConfig.ofRecord at h
  simp only [Checked.apply_eq_ok] at h
  obtain ⟨_, exclude, ⟨_, limit, hmk, hlimit, rfl⟩, -, rfl⟩ := h
  cases hmk
  exact contains_of_setting hlimit

/-- **The program's own check of the settings keeps to the declared bounds.** -/
theorem ConfigLibraries.keepsBounds_ofRecord (parse : List Char → Except Yaml.ValueFault Datum) :
    (ConfigLibraries.mk parse Config.ofRecord).KeepsBounds := by
  intro entries config h
  change Config.ofRecord entries = .ok config at h
  unfold Config.ofRecord at h
  simp only [Checked.apply_eq_ok] at h
  obtain ⟨_, layout, ⟨_, tree, ⟨_, radius, ⟨_, references, ⟨_, functions, ⟨_, ignored, ⟨_, comments,
    ⟨_, depth, hmk, hdepth, rfl⟩, -, rfl⟩, -, rfl⟩, -, rfl⟩, -, rfl⟩, hradius, rfl⟩, htree, rfl⟩, -,
    rfl⟩ := h
  cases hmk
  have hlimit : tree.limit = ({} : TreeConfig).limit ∨ TreeConfig.limitBounds.Contains tree.limit := by
    rcases setting_eq_ok htree with rfl | ⟨d, hread⟩
    · exact .inl rfl
    · unfold nested at hread
      split at hread
      · exact TreeConfig.contains_of_ofRecord hread
      · cases hread
  simp only [Config.numbers, List.forall_mem_cons]
  exact ⟨contains_of_setting hdepth, contains_of_setting hradius, hlimit, by simp⟩

/-! ### Faults -/

/-- On the way to the text of the settings at a path an error is met that is not reported as one of the
settings: the system does not say whether there is a file, or what is read of it is no text. -/
inductive FileAccess.Escapes (files : FileAccess) (path : String) : Prop where
  /-- The system does not say whether there is anything. -/
  | exists? {error : SystemError} (h : files.exists? path = .error error)
  /-- The system does not say whether what is there is a file. -/
  | isFile {error : SystemError} (hfound : files.exists? path = .ok true)
      (h : files.isFile path = .error error)
  /-- What is read of the file is no text. -/
  | read (hfound : files.exists? path = .ok true) (hfile : files.isFile path = .ok true)
      (h : files.readUpTo (maxConfigLength + 1) path = .error .notText)

namespace Config

variable {files : FileAccess} {libraries : ConfigLibraries} {path : String}

/-- Such an error is met if the text cannot be read for a fault that is not reported. -/
theorem escapes_iff :
    files.Escapes path ↔ ∃ fault, Config.text files path = .error fault ∧ fault.isReported = false := by
  constructor
  · intro h
    cases h with
    | @exists? error h => exact ⟨.unanswered error, by simp [Config.text, h], rfl⟩
    | @isFile error hfound h => exact ⟨.unanswered error, by simp [Config.text, hfound, h], rfl⟩
    | read hfound hfile h => exact ⟨.notText, by simp [Config.text, hfound, hfile, h], rfl⟩
  · rintro ⟨fault, h, hreported⟩
    unfold Config.text at h
    split at h
    · exact .exists? ‹_›
    · cases h
      cases hreported
    split at h
    · exact .isFile ‹_› ‹_›
    · cases h
      cases hreported
    split at h
    · cases h
      cases hreported
    · exact .read ‹_› ‹_› ‹_›
    · split at h <;> cases h
      cases hreported

theorem inBounds_of_ofDatum (hkeeps : libraries.KeepsBounds) {root : Datum} {config : Config}
    (h : Config.ofDatum libraries root = .ok config) : config.InBounds := by
  unfold Config.ofDatum at h
  split at h
  · cases h
    exact inBounds_default
  · rename_i entries
    cases hread : libraries.validate entries with
    | error errors =>
      rw [hread] at h
      cases h
    | ok found =>
      rw [hread] at h
      cases h
      exact inBounds_of_validate hkeeps hread
  · cases h

/-- Settings that are loaded are within their bounds. -/
theorem inBounds_of_load (hkeeps : libraries.KeepsBounds) {config : Config}
    (h : Config.load files libraries path = .ok config) : config.InBounds := by
  unfold Config.load at h
  split at h
  · unfold ofText at h
    split at h
    · exact inBounds_of_ofDatum hkeeps h
    · cases h
    · cases h
  · cases h

theorem isReported_of_ofDatum {root : Datum} {fault : LoadFault}
    (h : Config.ofDatum libraries root = .error fault) : fault.isReported = true := by
  unfold Config.ofDatum at h
  split at h
  · cases h
  · rename_i entries
    cases hread : libraries.validate entries with
    | error errors =>
      rw [hread] at h
      cases h
      rfl
    | ok found =>
      rw [hread] at h
      cases h
  · cases h
    rfl

/-- Every fault of a text is reported. -/
theorem isReported_of_ofText (hfails : libraries.FailsAsMalformed) {text : List Char}
    {fault : LoadFault} (h : Config.ofText libraries text = .error fault) :
    fault.isReported = true := by
  unfold Config.ofText at h
  split at h
  · exact isReported_of_ofDatum h
  · cases h
    rfl
  · rename_i fault hne hparse
    exact absurd (hfails text fault hparse) hne

/-- **Which faults are reported**: those of files that can be read as text. -/
theorem isReported_iff (hfails : libraries.FailsAsMalformed) {fault : LoadFault}
    (h : Config.load files libraries path = .error fault) :
    fault.isReported = true ↔ ¬files.Escapes path := by
  rw [escapes_iff]
  unfold Config.load at h
  cases htext : Config.text files path with
  | ok text =>
    rw [htext] at h
    simp [isReported_of_ofText hfails h]
  | error found =>
    rw [htext] at h
    cases h
    simp

end Config

/-! ### Disks -/

namespace Disk

variable {disk : Disk} {path : String}

/-- On a disk, only a file that is no text is not reported. -/
theorem holdsNoText_of_escapes (h : disk.access.Escapes path) : disk.HoldsNoText path := by
  cases h with
  | exists? h => cases h
  | isFile hfound h => cases h
  | read hfound hfile h => exact holdsNoText_of_readUpTo h

theorem exists?_of_entry {bytes : ByteArray} (h : disk.entry path = .ok (.file bytes)) :
    disk.access.exists? path = .ok true := by
  simp [access, exists?, h, Except.isOk, Except.toBool]

theorem isFile_of_entry {bytes : ByteArray} (h : disk.entry path = .ok (.file bytes)) :
    disk.access.isFile path = .ok true := by
  simp [access, isFile, h]

/-- A file of limited length that is no text is not reported. -/
theorem escapes_of_holdsNoText {bytes : ByteArray} (hentry : disk.entry path = .ok (.file bytes))
    (hbytes : String.fromUTF8? bytes = none) (hsize : bytes.size ≤ maxConfigLength) :
    disk.access.Escapes path :=
  .read (exists?_of_entry hentry) (isFile_of_entry hentry)
    (readUpTo_eq_notText hentry hbytes (Nat.lt_succ_of_le hsize))

/-- What loading such a file leads to. -/
theorem load_of_noText {libraries : ConfigLibraries} {bytes : ByteArray}
    (hentry : disk.entry path = .ok (.file bytes)) (hbytes : String.fromUTF8? bytes = none)
    (hsize : bytes.size ≤ maxConfigLength) :
    Config.load disk.access libraries path = .error .notText := by
  have hread := readUpTo_eq_notText hentry hbytes (Nat.lt_succ_of_le hsize)
  simp only [Config.load, Config.text, exists?_of_entry hentry, isFile_of_entry hentry, hread]

/-- A text that is not too long is loaded as a whole. -/
theorem load_of_text {libraries : ConfigLibraries} {bytes : ByteArray} {text : String}
    (hentry : disk.entry path = .ok (.file bytes)) (hbytes : String.fromUTF8? bytes = some text)
    (hlength : (Text.unifyLineEnds text.toList).length ≤ maxConfigLength) :
    Config.load disk.access libraries path =
      Config.ofText libraries (Text.unifyLineEnds text.toList) := by
  have htext : Config.text disk.access path = .ok (Text.unifyLineEnds text.toList) := by
    have hread := readUpTo_of_text hentry hbytes (maxConfigLength + 1)
    rw [List.take_of_length_le (Nat.le_succ_of_le hlength)] at hread
    simp only [Config.text, exists?_of_entry hentry, isFile_of_entry hentry, hread,
      if_neg (Nat.not_lt.mpr hlength)]
  rw [Config.load, htext]

end Disk

/-! ### Runs -/

/-- The settings that a command is given. -/
def Command.given? : Command → Option CommandSettings
  | .version => none
  | .context _ _ _ _ _ given => some given
  | .sweep given => some given

namespace Environment

variable (env : Environment)

/-- The file of settings that a run in a workspace reads, if there is one. -/
def configFile? (root : String) (given : CommandSettings) : Except RunFailure (Option String) :=
  let own := (Path.parse root ++ Path.parse configFileName).render
  if !given.config.isEmpty then (env.expand given.config).map fun path => some path.render
  else match env.files.isFile own with
    | .error error => .error (.unanswered error)
    | .ok true => .ok (some own)
    | .ok false => .ok none

/-- A command line whose run reads the settings in the file at a path. -/
def ReadsConfig (args : List String) (path : String) : Prop :=
  ∃ command given root, Command.ofTexts? args = some command ∧ command.given? = some given ∧
    env.workspace given.workspace = .ok root ∧ env.configFile? root given = .ok (some path)

variable {env}

theorem settings_of_fault {root path : String} {given : CommandSettings} {fault : LoadFault}
    (hfile : env.configFile? root given = .ok (some path))
    (hfault : Config.load env.files env.libraries path = .error fault) (referenced : Bool) :
    env.settings root given referenced = .error (.config path fault (env.details path fault)) := by
  have hload : env.loadConfig path = .error (.config path fault (env.details path fault)) := by
    rw [loadConfig, hfault]
    rfl
  unfold configFile? at hfile
  unfold settings
  dsimp only at hfile ⊢
  by_cases hgiven : (!given.config.isEmpty) = true
  · rw [if_pos hgiven] at hfile
    rw [if_pos hgiven]
    cases hexpand : env.expand given.config with
    | error failure =>
      rw [hexpand] at hfile
      cases hfile
    | ok found =>
      rw [hexpand] at hfile
      cases hfile
      simp only [bind, Except.bind, hload]
  · rw [if_neg hgiven] at hfile
    rw [if_neg hgiven]
    cases hown : env.files.isFile (Path.parse root ++ Path.parse configFileName).render with
    | error error =>
      rw [hown] at hfile
      cases hfile
    | ok found =>
      rw [hown] at hfile
      cases found with
      | false => cases hfile
      | true =>
        cases hfile
        simp only [bind, Except.bind, hload]

/-- A run whose settings cannot be loaded fails for this reason. -/
theorem run_of_fault {args : List String} {path : String} (hreads : env.ReadsConfig args path)
    {fault : LoadFault} (hfault : Config.load env.files env.libraries path = .error fault) :
    env.run args = (RunFailure.config path fault (env.details path fault)).result env.console := by
  obtain ⟨command, given, root, hcommand, hgiven, hroot, hfile⟩ := hreads
  have hsettings := settings_of_fault hfile hfault
  unfold run
  rw [hcommand]
  cases command with
  | version => cases hgiven
  | context file line column errorMessage referenced settings =>
    cases hgiven
    simp only [perform, hroot, hsettings, bind, Except.bind]
  | sweep settings =>
    cases hgiven
    simp only [perform, hroot, hsettings, bind, Except.bind]

variable (env)

/-- The message for a fault can be printed. -/
def CanReport (path : String) (fault : LoadFault) : Prop :=
  ∀ message, fault.message? path (env.details path fault) = some message →
    (env.console.message? ("[red]Error:[/red] " ++ message)).isSome = true

variable {env}

/-- **How a run ends whose settings cannot be loaded**: with the exit code for wrong settings if the fault
is reported and its message can be printed. -/
theorem exitCode_of_readsConfig {args : List String} {path : String}
    (hreads : env.ReadsConfig args path) {fault : LoadFault}
    (hfault : Config.load env.files env.libraries path = .error fault) :
    (env.run args).exitCode = 2 ↔ fault.isReported = true ∧ env.CanReport path fault := by
  have hsome := fault.isSome_message? path (env.details path fault)
  have hfailure : (RunFailure.config path fault (env.details path fault)).message? =
      fault.message? path (env.details path fault) := rfl
  rw [run_of_fault hreads hfault]
  unfold CanReport RunFailure.result
  rw [hfailure]
  cases hmessage : fault.message? path (env.details path fault) with
  | none =>
    rw [hmessage] at hsome
    simp [RunFailure.exitCode, ← hsome]
  | some message =>
    rw [hmessage] at hsome
    cases hconsole : env.console.message? ("[red]Error:[/red] " ++ message) with
    | none => simp [hconsole]
    | some output => simp [RunFailure.exitCode, hconsole, ← hsome]

end Environment

namespace Config

/-- **Settings are loaded within their bounds, or the fault is reported**: it is, unless the system does
not say that there is a file or what is read of it is no text, and then a run that reads the file ends
with the exit code for wrong settings, unless the message cannot be printed. -/
theorem load_or_report (files : FileAccess) {libraries : ConfigLibraries}
    (hfails : libraries.FailsAsMalformed) (hkeeps : libraries.KeepsBounds) (path : String) :
    (∀ disk : Disk, files = disk.access → files.Escapes path → disk.HoldsNoText path) ∧
    match Config.load files libraries path with
    | .ok config => config.InBounds
    | .error fault =>
      (fault.isReported = true ↔ ¬files.Escapes path) ∧
      ∀ env : Environment, env.files = files → env.libraries = libraries →
        ∀ args, env.ReadsConfig args path →
          ((env.run args).exitCode = 2 ↔ ¬files.Escapes path ∧ env.CanReport path fault) := by
  refine ⟨?_, ?_⟩
  · rintro disk rfl hescapes
    exact Disk.holdsNoText_of_escapes hescapes
  · cases hload : Config.load files libraries path with
    | ok config => exact inBounds_of_load hkeeps hload
    | error fault =>
      refine ⟨isReported_iff hfails hload, ?_⟩
      rintro env rfl rfl args hreads
      rw [Environment.exitCode_of_readsConfig hreads hload, isReported_iff hfails hload]

/-- Libraries for files that hold one of two texts, `depth: 4` and `depth: [`, of which the second is no
YAML. -/
def depthLibraries : ConfigLibraries where
  parse text :=
    if text = "depth: 4\n".toList then .ok (.record [(.text "depth", .int 4)]) else .error .malformed
  validate := Config.ofRecord

/-- A disk with a file for each of the two texts. -/
def depthDisk : Disk :=
  { root := .directory
      [("c.yaml", .file "depth: 4\n".toUTF8), ("d.yaml", .file "depth: [\n".toUTF8)] }

/-- An environment without other programs, of a user without a home. -/
def bareEnvironment (disk : Disk) (console : Console) : Environment :=
  { disk, libraries := depthLibraries, console, home? := fun _ => none, outcome := fun _ => .notRun }

/-- A sweep of the root directory with the settings in the file at a path. -/
def sweepArguments (path : String) : List String := ["sweep", "--config", path]

/-- Of the two files one is loaded, and a sweep with the other ends with the exit code for wrong
settings. -/
theorem load_or_report_depths :
    depthLibraries.FailsAsMalformed ∧ depthLibraries.KeepsBounds ∧
      Config.load depthDisk.access depthLibraries "/c.yaml" = .ok { depth := 4 } ∧
      InBounds { depth := 4 } ∧
      Config.load depthDisk.access depthLibraries "/d.yaml" = .error .malformed ∧
      ((bareEnvironment depthDisk Terminal.console).run (sweepArguments "/d.yaml")).exitCode = 2 := by
  have hfails : depthLibraries.FailsAsMalformed := by
    intro text fault h
    simp only [depthLibraries] at h
    split at h <;> cases h
    rfl
  have hkeeps : depthLibraries.KeepsBounds := ConfigLibraries.keepsBounds_ofRecord _
  have hloaded : Config.load depthDisk.access depthLibraries "/c.yaml" = .ok { depth := 4 } := by
    have hentry : depthDisk.entry "/c.yaml" = .ok (.file "depth: 4\n".toUTF8) := rfl
    rw [Disk.load_of_text hentry (Reading.fromUTF8?_eq_some_iff.mpr rfl) (by decide +kernel)]
    decide +kernel
  have hmalformed : Config.load depthDisk.access depthLibraries "/d.yaml" = .error .malformed := by
    have hentry : depthDisk.entry "/d.yaml" = .ok (.file "depth: [\n".toUTF8) := rfl
    rw [Disk.load_of_text hentry (Reading.fromUTF8?_eq_some_iff.mpr rfl) (by decide +kernel)]
    decide +kernel
  have hreads : (bareEnvironment depthDisk Terminal.console).ReadsConfig (sweepArguments "/d.yaml")
      "/d.yaml" :=
    ⟨.sweep { config := "/d.yaml" }, { config := "/d.yaml" }, "/", by decide +kernel, rfl,
      by decide +kernel, by decide +kernel⟩
  have hgood := (load_or_report depthDisk.access hfails hkeeps "/c.yaml").2
  have hbad := (load_or_report depthDisk.access hfails hkeeps "/d.yaml").2
  rw [hloaded] at hgood
  rw [hmalformed] at hbad
  refine ⟨hfails, hkeeps, hloaded, hgood, hmalformed, ?_⟩
  exact (hbad.2 _ rfl rfl _ hreads).mpr ⟨hbad.1.mp rfl, fun _ _ => rfl⟩

/-- A disk on which the file `/c.yaml` is no text. -/
def noTextDisk : Disk := { root := .directory [("c.yaml", .file ⟨#[0xff]⟩)] }

/-- A console that does not print a message that ends with a tag that closes nothing, `[/x]`. -/
def strictConsole : Console :=
  { Terminal.console with
    message? := fun message =>
      if "[/x]".toList.isSuffixOf message.toList then none else Terminal.console.message? message }

/-- **Not every fault of the settings is reported**: if the file is no text, the run is interrupted and
ends with another exit code than that for wrong settings; so it does if a message holds a tag that closes
nothing. -/
theorem exitCode_noText :
    noTextDisk.access.Escapes "/c.yaml" ∧
      Config.load noTextDisk.access depthLibraries "/c.yaml" = .error .notText ∧
      LoadFault.isReported .notText = false ∧
      (bareEnvironment noTextDisk Terminal.console).run (sweepArguments "/c.yaml") =
        { exitCode := 1, interruption := some (.failure (.config "/c.yaml" .notText "")) } ∧
      Config.load ({} : Disk).access depthLibraries "/[/x]" = .error .missing ∧
      (bareEnvironment {} strictConsole).run (sweepArguments "/[/x]") =
        { exitCode := 1, interruption := some .message } := by
  have hbytes : String.fromUTF8? ⟨#[0xff]⟩ = none := by decide +kernel
  have hsize : ByteArray.size ⟨#[0xff]⟩ ≤ maxConfigLength := by decide +kernel
  have hfault : Config.load noTextDisk.access depthLibraries "/c.yaml" = .error .notText :=
    Disk.load_of_noText rfl hbytes hsize
  have hmissing : Config.load ({} : Disk).access depthLibraries "/[/x]" = .error .missing := by
    decide +kernel
  have hreads : (bareEnvironment noTextDisk Terminal.console).ReadsConfig (sweepArguments "/c.yaml")
      "/c.yaml" :=
    ⟨.sweep { config := "/c.yaml" }, { config := "/c.yaml" }, "/", by decide +kernel, rfl,
      by decide +kernel, by decide +kernel⟩
  have hreads' : (bareEnvironment {} strictConsole).ReadsConfig (sweepArguments "/[/x]") "/[/x]" :=
    ⟨.sweep { config := "/[/x]" }, { config := "/[/x]" }, "/", by decide +kernel, rfl,
      by decide +kernel, by decide +kernel⟩
  refine ⟨Disk.escapes_of_holdsNoText rfl hbytes hsize, hfault, rfl, ?_, hmissing, ?_⟩
  · rw [Environment.run_of_fault hreads hfault]
    rfl
  · rw [Environment.run_of_fault hreads' hmissing]
    decide +kernel

end Config

end Vicinity
