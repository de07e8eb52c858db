import Vicinity.Bundle.Layout
import Vicinity.CommandLine.Command
import Vicinity.Config.Load
import Vicinity.Engine
import Vicinity.Provider.Workspace
import Vicinity.Terminal
import Vicinity.Toolchain

/-!
# The command line

Running a command: find the workspace and its settings, extract the context, and print its layout. What
a run depends on besides its arguments is an `Environment`; its result is an exit code and what it
prints. A run that fails prints what was wrong and says by its exit code whether the call or the
settings are at fault, or what it was asked about, unless the failure is one that interrupts it.
-/

namespace Vicinity

/-- What a run depends on besides its arguments. -/
structure Environment where
  disk : Disk
  /-- How a disk's files are accessed where settings are loaded. -/
  access : Disk → FileAccess := Disk.access
  libraries : ConfigLibraries
  console : Console
  /-- The home directory of the user with a name; the empty name stands for the user of the run. -/
  home? : String → Option String
  /-- What running a command of another program leads to. -/
  outcome : List String → CommandOutcome
  /-- The details that the message for a fault of the settings in the file with a path ends with. -/
  details : String → LoadFault → String := fun _ _ => ""

/-- Why a run fails. -/
inductive RunFailure where
  /-- The command line is not well formed. -/
  | usage
  /-- The settings in the file at a path cannot be loaded. -/
  | config (path : String) (fault : LoadFault) (details : String)
  /-- The system does not say whether the workspace has a file of settings. -/
  | unanswered (error : SystemError)
  /-- The workspace is not a directory. -/
  | notDirectory (path : String)
  /-- There is no such file. -/
  | missingFile (path : String)
  /-- The file cannot be read as text. -/
  | noContext
  /-- A path names the home of a user who has none. -/
  | noHome
  deriving DecidableEq, Repr

/-- What interrupts a run, so that it does not end with a report. -/
inductive Interruption where
  /-- A failure that is not reported. -/
  | failure (failure : RunFailure)
  /-- A message that cannot be printed. -/
  | message
  deriving DecidableEq, Repr

/-- What a run leads to. -/
structure RunResult where
  exitCode : Nat
  output : String := ""
  interruption : Option Interruption := none
  deriving DecidableEq, Repr

namespace RunFailure

/-- The exit code of a run that fails: two if the call or the settings are at fault. -/
def exitCode : RunFailure → Nat
  | usage => 2
  | config _ fault _ => if fault.isReported then 2 else 1
  | _ => 1

/-- What is said about a failure. Nothing is said here about how a command line is to be written, and
nothing about failures that are not reported. -/
def message? : RunFailure → Option String
  | usage | noHome | unanswered _ => none
  | config path fault details => fault.message? path details
  | notDirectory path => some ("Workspace is not a directory: " ++ path)
  | missingFile path => some ("File not found: " ++ path)
  | noContext => some "No context available"

/-- How a failure interrupts the run if nothing is said about it. -/
def interruption? : RunFailure → Option Interruption
  | usage => none
  | failure => some (.failure failure)

/-- The result of a run that fails. -/
def result (console : Console) (failure : RunFailure) : RunResult :=
  match failure.message? with
  | none => { exitCode := failure.exitCode, interruption := failure.interruption? }
  | some message =>
    match console.message? ("[red]Error:[/red] " ++ message) with
    | some output => { exitCode := failure.exitCode, output }
    | none => { exitCode := 1, interruption := some .message }

end RunFailure

/-- The name and the version of the program. -/
def programVersion : String := "raydoc-context 0.1.15"

/-- The name of the file of settings in a workspace. -/
def configFileName : String := ".raydoc-context.yaml"

namespace Environment

variable (env : Environment)

/-- How the files on the disk are accessed where settings are loaded. -/
def files : FileAccess := env.access env.disk

/-- The directory in which relative paths are read. -/
def workingDirectory : Path := ⟨1, env.disk.workingDirectory⟩

/-- Reads a path; a tilde at its beginning stands for a home directory. -/
def expand (text : String) : Except RunFailure Path :=
  let path := Path.parse text
  match path.isAbsolute, path.segments with
  | false, first :: rest =>
    match first.toList with
    | '~' :: user =>
      match env.home? (String.ofList user) with
      | some home => .ok (Path.parse home ++ ⟨0, rest⟩)
      | none => .error .noHome
    | _ => .ok path
  | _, _ => .ok path

/-- The path from the root that a path names, with its double dots resolved. -/
def resolve (path : Path) : Path := { (env.workingDirectory ++ path).normalize with slashes := 1 }

/-- The workspace: the directory that is named, or else the working directory. -/
def workspace (text : String) : Except RunFailure String := do
  let root ← if text.isEmpty then .ok env.workingDirectory else (env.expand text).map env.resolve
  if env.disk.isDirectory root.render then .ok root.render else .error (.notDirectory root.render)

/-- The settings in a file. -/
def loadConfig (path : String) : Except RunFailure Config :=
  (Config.load env.files env.libraries path).mapError fun fault =>
    .config path fault (env.details path fault)

/-- The settings in the file that is named, or else in the workspace's own, or else those that hold if
nothing is set; with what the command asks for in addition. -/
def settings (root : String) (given : CommandSettings) (referenced : Bool) :
    Except RunFailure Config := do
  let own := (Path.parse root ++ Path.parse configFileName).render
  let config ←
    if !given.config.isEmpty then env.loadConfig (← env.expand given.config).render
    else match env.files.isFile own with
      | .error error => .error (.unanswered error)
      | .ok true => env.loadConfig own
      | .ok false => .ok {}
  .ok (config.override given.depth given.tree referenced)

/-- The file that is asked about. -/
def file (text : String) : Except RunFailure String := do
  let path ← env.expand text
  let path := if path.isAbsolute then path else env.resolve path
  if env.disk.isFile path.render then .ok path.render else .error (.missingFile path.render)

/-- The version of the toolchain for a file, if it is to be shown. -/
def toolchainVersion (config : Config) (path : String) : Option String :=
  if config.layout.runtimeVersion then
    (versionCommand? (languageIdOfPath path)).bind fun command => (env.outcome command).version?
  else none

/-- The layout of what an extraction in a workspace finds. -/
def extract (root : String) (config : Config)
    (run : Engine WorkspaceState → StateM WorkspaceState (Option Bundle)) :
    Except RunFailure String :=
  let settings : WorkspaceSettings := { root, exclude := config.fileTree.exclude }
  let engine := Engine.of settings.provider (·.disk) (some root) config
  match (run engine { disk := env.disk }).1 with
  | some bundle => .ok (bundle.layout config.layout)
  | none => .error .noContext

/-- The text that a command prints. -/
def perform : Command → Except RunFailure String
  | .version => .ok programVersion
  | .context file line column errorMessage referenced given => do
    let root ← env.workspace given.workspace
    let config ← env.settings root given referenced
    let path ← env.file file
    env.extract root config fun engine => engine.gather
      { path, position := ⟨line - 1, column - 1⟩, errorMessage
        runtimeVersion := env.toolchainVersion config path }
  | .sweep given => do
    let root ← env.workspace given.workspace
    let config ← env.settings root given false
    env.extract root config fun engine => engine.sweep

/-- The result of running a command line. -/
def run (args : List String) : RunResult :=
  match Command.ofTexts? args with
  | none => RunFailure.usage.result env.console
  | some command =>
    match env.perform command with
    | .ok text => { exitCode := 0, output := env.console.text text }
    | .error failure => failure.result env.console

end Environment

end Vicinity
