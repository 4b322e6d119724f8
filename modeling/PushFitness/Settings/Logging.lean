import PushFitness.Log
import PushFitness.Settings.Config
import PushFitness.Settings.File

/-!
# What is logged where

A configuration names the lowest level that is logged, in any case of letters. Names
that are no level stand for INFO. Two names are taken by the log itself, for its
basic format and its table of format styles; they are found and are no levels, so
with them no log can be set up.

Records go to the console, and to a file as well if the configuration names one. The
file is looked at last: it has to be one that can be written.
-/

namespace PushFitness

/-- Why no log can be set up. -/
inductive LogError
  | formatText
  | styleTable
  | nulInPath
  | file (fault : FileFault) (path : String)
deriving DecidableEq

def LogError.message : LogError → String
  | formatText => "Unknown level: '%(levelname)s:%(name)s:%(message)s'"
  | styleTable =>
    "Level not an integer or a valid string: \x7b'%': (<class 'logging.PercentStyle'>, "
      ++ "'%(levelname)s:%(name)s:%(message)s'), '\x7b': (<class 'logging.StrFormatStyle'>, "
      ++ "'\x7blevelname\x7d:\x7bname\x7d:\x7bmessage\x7d'), '$': "
      ++ "(<class 'logging.StringTemplateStyle'>, "
      ++ "'$\x7blevelname\x7d:$\x7bname\x7d:$\x7bmessage\x7d')\x7d"
  | nulInPath => "embedded null byte"
  | file fault path => fault.message path

/-- A character in upper case, as far as the names of levels need it: those characters
whose upper case is made of Latin letters. -/
def upperChars (c : Char) : List Char :=
  match c.toNat with
  | 0xDF => ['S', 'S']
  | 0x131 => ['I']
  | 0x17F => ['S']
  | 0xFB00 => ['F', 'F']
  | 0xFB01 => ['F', 'I']
  | 0xFB02 => ['F', 'L']
  | 0xFB03 => ['F', 'F', 'I']
  | 0xFB04 => ['F', 'F', 'L']
  | 0xFB05 => ['S', 'T']
  | 0xFB06 => ['S', 'T']
  | _ => [c.toUpper]

/-- A name in upper case. -/
def upperText (s : String) : String := String.ofList (s.toList.flatMap upperChars)

/-- The level with a name, INFO if there is none. -/
def LogLevel.ofText (s : String) : Except LogError LogLevel :=
  match upperText s with
  | "NOTSET" => .ok .notSet
  | "DEBUG" => .ok .debug
  | "WARNING" => .ok .warning
  | "WARN" => .ok .warning
  | "ERROR" => .ok .error
  | "CRITICAL" => .ok .critical
  | "FATAL" => .ok .critical
  | "BASIC_FORMAT" => .error .formatText
  | "_STYLES" => .error .styleTable
  | _ => .ok .info

/-- A log: its level and the file that it is also written to. -/
structure LogSetup where
  level : LogLevel
  file? : Option String
deriving DecidableEq

namespace LogSetup

/-- Fails if no file can be written at the end of a path. -/
def checkFile (files : Files) (path : String) : Except LogError Unit :=
  if '\x00' ∈ path.toList then .error .nulInPath
  else
    match (files.entryAt path).writeFault? with
    | some fault => .error (.file fault path)
    | none => .ok ()

/-- The log that a configuration asks for. The path of its file is made absolute, without
detours, before anything is looked at. -/
def ofConfig (files : Files) (c : ExperimentConfig) : Except LogError LogSetup := do
  let level ← LogLevel.ofText c.logLevel
  let file? := c.logFile?.map (Path.absolute files.folder)
  match file? with
  | none => return ⟨level, none⟩
  | some path =>
    checkFile files path
    return ⟨level, file?⟩

/-- The lowest level that is shown. A log without a level shows warnings. -/
def threshold (s : LogSetup) : LogLevel := if s.level = .notSet then .warning else s.level

/-- The records that are shown. -/
def shown (s : LogSetup) (records : List LogRecord) : List LogRecord :=
  records.filter fun r => s.threshold.severity ≤ r.level.severity

/-- The kinds of places that records go to. -/
def handlers (s : LogSetup) : List String :=
  "StreamHandler" :: if s.file?.isSome then ["FileHandler"] else []

end LogSetup

end PushFitness
