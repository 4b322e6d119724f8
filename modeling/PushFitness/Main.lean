import PushFitness.CommandLine.Evaluation
import Std.Time.Format

/-!
# The command at work

Collects what the command depends on, namely the environment, the configuration file
and a seed for invocations that name none, and delivers the report: output to the
standard output, errors to the standard error, and log lines to the standard error
and to the log file, each behind the time.
-/

namespace PushFitness.CommandLine

/-- The variables of the environment that count and are set. -/
def environment : IO Environment :=
  Environment.names.filterMapM fun name => do
    return (← IO.getEnv name).map fun value => (name, value)

/-- What a failure says of the path it is about. -/
def entryOfError (e : IO.Error) : Entry :=
  match e with
  | .inappropriateType _ code _ => if code = 21 then .folder else .blocked
  | .invalidArgument _ _ _ => .nameTooLong
  | _ => .unreachable

/-- What the path of a configuration ends at. -/
def entryToRead (path : String) : IO Entry := do
  try
    return .file (← IO.FS.readFile path)
  catch e => return entryOfError e

/-- What the path of a log file ends at. If a file can be written there it is made. -/
def entryToWrite (path : String) : IO Entry := do
  try
    let _ ← IO.FS.Handle.mk path .append
    return .absent
  catch e => return entryOfError e

/-- The path of the configuration that arguments name. -/
def configPath? (arguments : List String) : Option String :=
  match Command.ofArguments arguments with
  | .ok (.evaluate i) => some (Path.plain i.config)
  | _ => none

/-- A seed that no run can foresee. -/
def freshSeed : IO Int := do
  let bytes ← IO.getRandomBytes 32
  return bytes.toList.foldl (fun seed b => 256 * seed + b.toNat) 0

/-- The local time as it stands in front of a log line. -/
def timeText : IO String := do
  return (← Std.Time.PlainDateTime.now).format "uuuu-MM-dd HH:mm:ss,SSS"

/-- Writes the log lines. -/
def deliverLog (report : Report) : IO Unit := do
  let time ← timeText
  let text := String.join (report.shown.map fun r => time ++ " " ++ r.line ++ "\n")
  IO.eprint text
  match report.setup?.bind LogSetup.file? with
  | none => return
  | some path => (← IO.FS.Handle.mk path .append).putStr text

/-- Writes a report. -/
def deliver (report : Report) : IO Unit := do
  deliverLog report
  report.output.forM IO.println
  report.errors.forM fun line => IO.eprintln line

end PushFitness.CommandLine

open PushFitness PushFitness.CommandLine in
/-- Carries out the command and answers with its exit status. Which log file there is to be
shows only when the configuration has been read, so a first run is made for its sake. -/
def main (arguments : List String) : IO UInt32 := do
  let folder := toString (← IO.currentDir)
  let config ← match configPath? arguments with
    | some path => entryToRead path
    | none => pure .absent
  let env ← environment
  let seed ← freshSeed
  let first := run arguments env ⟨folder, fun _ => config⟩ seed
  let log ← match first.2.setup?.bind LogSetup.file? with
    | some path => entryToWrite path
    | none => pure .absent
  let entryAt (path : String) : Entry :=
    if configPath? arguments = some path then config else log
  let (status, report) := run arguments env ⟨folder, entryAt⟩ seed
  deliver report
  return UInt32.ofNat status
