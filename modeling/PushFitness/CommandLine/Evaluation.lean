import PushFitness.CommandLine.Usage
import PushFitness.Predictor.Prediction
import PushFitness.Settings.Environment
import PushFitness.Settings.Logging
import PushFitness.Settings.Yaml.Document

/-!
# The command

The command reads a configuration, lets the environment override it, reads the cases
and the programs, and prints a summary. Then it makes a predictor, predicts the
fitness of every program and prints one block for each, with the true fitness if
that is asked for. The first failure ends it with a message; what has been printed
stays printed.

Everything is settled by the arguments, the environment and the files, so the
command is a function of them. It answers with what is to be printed and logged.
-/

namespace PushFitness

/-! ## Reading a configuration -/

/-- Why a configuration cannot be read. -/
inductive ConfigError
  | noFile (path : String)
  | file (fault : FileFault) (path : String)
  | document (fault : Yaml.Fault)
  | notATable (kind : String)
  | otherKeys
  | invalidFields (faults : List FieldError)

def ConfigError.message : ConfigError → String
  | noFile path => "config file not found: " ++ path
  | file fault path => fault.message path
  | document fault => fault.message
  | notATable kind => "config file must contain a YAML mapping, got " ++ kind
  | otherKeys => "keywords must be strings"
  | invalidFields faults =>
    toString faults.length ++ " validation error" ++ (if faults.length = 1 then "" else "s")
      ++ " for ExperimentConfig"

/-- The configuration that a document holds. -/
def ExperimentConfig.ofDocument (content : String) : Except ConfigError ExperimentConfig :=
  match Yaml.document content with
  | .error fault => .error (.document fault)
  | .ok (.table entries) =>
    if Table.hasTextKeys entries then (ofTable entries).mapError .invalidFields
    else .error .otherKeys
  | .ok v => .error (.notATable v.kind)

/-- The configuration at the end of a path, given what the path ends at. -/
def ExperimentConfig.ofFile (path : String) (entry : Entry) :
    Except ConfigError ExperimentConfig :=
  match entry with
  | .file content => ofDocument content
  | .folder => .error (.file .isFolder (Path.plain path))
  | .nameTooLong => .error (.file .nameTooLong (Path.plain path))
  | .absent | .unreachable | .blocked => .error (.noFile path)

namespace CommandLine

/-! ## What a command leaves -/

/-- What has been printed and logged. -/
structure Report where
  output : List String
  errors : List String
  records : List LogRecord
  setup? : Option LogSetup

namespace Report

def empty : Report := ⟨[], [], [], none⟩

def print (r : Report) (lines : List String) : Report := { r with output := r.output ++ lines }

/-- Prints lines one by one. One that cannot be written ends this, and is no longer printed. -/
def printEach (r : Report) : List (Option String) → Except Report Report
  | [] => .ok r
  | none :: _ => .error r
  | some line :: lines => printEach (r.print [line]) lines

def log (r : Report) (records : List LogRecord) : Report :=
  { r with records := r.records ++ records }

/-- The records that are shown, once it is settled what is logged. -/
def shown (r : Report) : List LogRecord :=
  match r.setup? with
  | none => []
  | some setup => setup.shown r.records

/-- Ends with an error message. -/
def fail (r : Report) (label message : String) : Nat × Report :=
  (1, { r with errors := r.errors ++ [label ++ ": " ++ message] })

end Report

/-! ## Evaluating programs -/

def separatorLine : String := String.ofList (List.replicate 60 '=')

/-- A line with a number, if the number can be written. -/
def numberLine? (label : String) (n : Nat) : Option String :=
  (Text.writtenNumber? n).map (label ++ ·)

/-- The lines of the summary of an experiment, those that can be written. -/
def summary (c : ExperimentConfig) (cases : Nat) : List (Option String) := [
  some separatorLine, some commandName, some separatorLine,
  some ("  Problem type:    " ++ c.problemType.text),
  numberLine? "  Test cases:      " cases,
  numberLine? "  Sample size:     " c.predictor.sampleSize,
  numberLine? "  Execution limit: " c.evaluator.executionLimit,
  numberLine? "  Max workers:     " c.maxWorkers, some separatorLine]

/-- Programs from texts, up to the first text that is none. -/
def readPrograms : List String → Except String (List Program)
  | [] => .ok []
  | text :: texts =>
    match Program.ofText text with
    | .error e => .error (e.message text)
    | .ok program => (readPrograms texts).map (program :: ·)

/-- The predictor for an invocation: with the given indices, or with random ones. The
context is the first of the session. -/
def predictorFor (i : Invocation) (c : ExperimentConfig) (cases : List Case)
    (fallbackSeed : Int) : Except PredictorError Predictor :=
  match i.indices? with
  | some is => Predictor.new c.predictor.sampleSize (some 0) (some (is.map .int))
  | none =>
    Predictor.random c.predictor 0 cases ((i.seed?.or c.seed?).getD fallbackSeed)

/-- The word in front of an error of a predictor. -/
def predictorLabel (e : PredictorError) : String :=
  if e.isBinding then "Predictor error" else "Error"

/-- Prints a block for every program, up to the first whose true fitness is asked for and
cannot be found. -/
def printBlocks (full : Bool) (context : Context) (r : Report) :
    List (Program × Binary64) → Nat × Report
  | [] => (0, r)
  | (program, predicted) :: blocks =>
    let r := r.print ["Program: " ++ program.text, "Predicted fitness: " ++ predicted.text]
    if full then
      let evaluated := context.trueFitness program
      let r := r.log evaluated.records
      match evaluated.result with
      | .ok x =>
        printBlocks full { context with evaluator := evaluated.evaluator }
          (r.print ["True fitness: " ++ x.text]) blocks
      | .error e => r.fail "Error" e.message
    else printBlocks full context r blocks

/-- Makes the predictor, predicts, and prints the blocks. -/
def predictAndPrint (i : Invocation) (c : ExperimentConfig) (context : Context)
    (programs : List Program) (fallbackSeed : Int) (r : Report) : Nat × Report :=
  match predictorFor i c context.cases fallbackSeed with
  | .error e => r.fail (predictorLabel e) e.message
  | .ok predictor =>
    let r := r.log [⟨.info, "push_surrogate.cli",
      "Evaluating " ++ toString programs.length ++ " program(s)"⟩]
    let fresh := Evaluator.new c.problemType c.evaluator
    match predictor.predictPopulation [context] fresh c.maxWorkers programs with
    | (records, .error e) => (r.log records).fail (predictorLabel e) e.message
    | (records, .ok predictions) =>
      match predictor.text? with
      | none => (r.log records).fail "Error" Text.unwrittenMessage
      | some text =>
        printBlocks i.full context ((r.log records).print [text]) (programs.zip predictions)

/-- Reads the cases and the programs, prints the summary, and goes on. -/
def evaluateConfig (i : Invocation) (c : ExperimentConfig) (fallbackSeed : Int) (r : Report) :
    Nat × Report :=
  let reading := CaseReading.ofText c.problemType c.testCases
  let r := r.log reading.records
  match reading.result with
  | .error e => r.fail "Error" (e.message c.testCases)
  | .ok cases =>
    match readPrograms i.programs with
    | .error message => r.fail "Error" message
    | .ok programs =>
      match r.printEach (summary c cases.length) with
      | .error r => r.fail "Error" Text.unwrittenMessage
      | .ok r =>
        predictAndPrint i c (.new c.problemType c.evaluator cases) programs fallbackSeed r

/-- Carries out an invocation. The seed at the end is used if no other is given. -/
def evaluate (i : Invocation) (env : Environment) (files : Files) (fallbackSeed : Int) :
    Nat × Report :=
  match ExperimentConfig.ofFile i.config (files.entryAt (Path.plain i.config)) with
  | .error e => Report.empty.fail "Error" e.message
  | .ok base =>
    let c := base.inEnvironment env
    match LogSetup.ofConfig files c with
    | .error e => Report.empty.fail "Error" e.message
    | .ok setup => evaluateConfig i c fallbackSeed { Report.empty with setup? := some setup }

/-- Carries out the command: the exit status and the report. Arguments that cannot be
read give the status 2. -/
def run (arguments : List String) (env : Environment) (files : Files) (fallbackSeed : Int) :
    Nat × Report :=
  match Command.ofArguments arguments with
  | .error e => (2, { Report.empty with errors := usage ++ [faultLine e] })
  | .ok .help => (0, Report.empty.print help)
  | .ok (.evaluate i) => evaluate i env files fallbackSeed

end CommandLine

end PushFitness
