import Vicinity.CommandLine
import Vicinity.Config.Check
import Vicinity.Yaml.Value

/-!
# The program

Reads from the disk what the command line names, runs it, and prints its result. Other programs are not
run, so that no toolchain tells its version.
-/

namespace Vicinity.Program

/-- What is on the disk at a path; none if it cannot be read. -/
partial def entry? (path : String) : IO (Option DiskEntry) := do
  try
    let place ← IO.FS.realPath path
    if ← place.isDir then
      let children ← (← place.readDir).toList.filterMapM fun found => do
        return (← entry? (path ++ "/" ++ found.fileName)).map (found.fileName, ·)
      return some (.directory children)
    else return some (.file (← IO.FS.readBinFile path))
  catch _ => return none

/-- The environment with what is on the disk at a path. -/
def load (env : Environment) (text : String) : IO Environment := do
  match env.expand text with
  | .error _ => return env
  | .ok path =>
    let path := (env.resolve path).render
    match ← entry? path with
    | some entry => return { env with disk := env.disk.put path entry }
    | none => return env

/-- The paths that a command names, the workspace first. -/
def paths : Command → List String
  | .version => []
  | .context file _ _ _ _ settings => settings.workspace :: named [settings.config, file]
  | .sweep settings => settings.workspace :: named [settings.config]
where
  /-- The paths that are not empty. -/
  named (paths : List String) : List String := paths.filter (!·.isEmpty)

/-- The environment of the program, with what a command line names on its disk. -/
def environment (args : List String) : IO Environment := do
  let directory := Path.parse (← IO.currentDir).toString
  let home ← IO.getEnv "HOME"
  let env : Environment :=
    { disk := { workingDirectory := directory.segments }
      libraries := { parse := Yaml.load, validate := Config.ofRecord }
      console := Terminal.console
      home? := fun user => if user.isEmpty then home else none
      outcome := fun _ => .notRun }
  match Command.ofTexts? args with
  | none => return env
  | some command => (paths command).foldlM load env

end Vicinity.Program

/-- Runs the command line. -/
def main (args : List String) : IO UInt32 := do
  let env ← Vicinity.Program.environment args
  let result := env.run args
  IO.print result.output
  return result.exitCode.toUInt32
