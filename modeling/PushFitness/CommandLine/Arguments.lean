import PushFitness.Text.Numeral
import PushFitness.Text.Quoted

/-!
# Arguments of the command line

Options start with a dash and may be cut short as long as they stay unambiguous. A
value may follow its option or be joined to it by an equals sign. What looks like a
negative number or holds a blank is a value even if it starts with a dash, and
everything behind a double dash is a value.

The arguments are read in three steps: each is classified, the values behind an
option are gathered, and the options take effect from left to right. The first
fault ends the reading; a missing option is a fault found at the end, and arguments
that belong to nothing are found last of all.
-/

namespace PushFitness.CommandLine

/-- The options. -/
inductive Flag
  | help
  | config
  | program
  | indices
  | seed
  | full
deriving DecidableEq

namespace Flag

/-- The spellings of an option. -/
def spellings : Flag → List String
  | help => ["-h", "--help"]
  | config => ["--config"]
  | program => ["--program"]
  | indices => ["--indices"]
  | seed => ["--seed"]
  | full => ["--full"]

/-- All spellings in the order in which options are listed. -/
def table : List (String × Flag) :=
  [help, config, program, indices, seed, full].flatMap fun f => f.spellings.map (·, f)

/-- An option as a message names it. -/
def text (f : Flag) : String := "/".intercalate f.spellings

end Flag

/-- A text that is joined to an option: behind an equals sign, or directly behind a
one-letter option. -/
inductive Joined
  | equals (text : String)
  | glued (text : String)
deriving DecidableEq

/-- A text behind an equals sign. An option of one letter takes it like any other text
that directly follows. -/
def Joined.ofSpelling (spelling : List Char) (text : String) : Joined :=
  if spelling.length = 2 then .glued text else .equals text

/-- What an argument is. -/
inductive Kind
  | value
  | separator
  | option (f : Flag) (joined? : Option Joined)
  | unknownOption
deriving DecidableEq

/-- Why arguments cannot be read. -/
inductive UsageError
  | ambiguous (argument : String) (candidates : List String)
  | expectedOne (f : Flag)
  | expectedSome (f : Flag)
  | ignored (f : Flag) (text : String)
  | notAnInteger (f : Flag) (text : String)
  | missing (fs : List Flag)
  | unrecognized (arguments : List String)
deriving DecidableEq

def UsageError.message : UsageError → String
  | ambiguous argument candidates =>
    "ambiguous option: " ++ argument ++ " could match " ++ ", ".intercalate candidates
  | expectedOne f => "argument " ++ f.text ++ ": expected one argument"
  | expectedSome f => "argument " ++ f.text ++ ": expected at least one argument"
  | ignored f text =>
    "argument " ++ f.text ++ ": ignored explicit argument " ++ Text.quoted text
  | notAnInteger f text => "argument " ++ f.text ++ ": invalid int value: " ++ Text.quoted text
  | missing fs =>
    "the following arguments are required: " ++ ", ".intercalate (fs.map Flag.text)
  | unrecognized arguments => "unrecognized arguments: " ++ " ".intercalate arguments

/-! ## Classifying arguments -/

/-- A dash and digits with at most one point in front of the last of them. -/
def isNegativeNumber : List Char → Bool
  | '-' :: cs =>
    let body := if cs.getLast? = some '\n' then cs.dropLast else cs
    let (whole, rest) := Text.digitRun body
    match rest with
    | [] => !whole.isEmpty
    | '.' :: fraction => ((Text.digitValues? fraction).map fun ds => !ds.isEmpty).getD false
    | _ => false
  | _ => false

/-- The text in front of the first equals sign, and the text behind it if there is one. -/
def splitEquals (cs : List Char) : List Char × Option (List Char) :=
  match cs.dropWhile (· ≠ '=') with
  | [] => (cs, none)
  | _ :: behind => (cs.takeWhile (· ≠ '='), some behind)

/-- The options that an argument with a dash may be short for, as they are spelled. -/
def candidates (cs : List Char) : List (String × Flag × Option Joined) :=
  match cs with
  | '-' :: '-' :: _ =>
    let (front, behind?) := splitEquals cs
    (Flag.table.filter fun (s, _) => front.isPrefixOf s.toList).map fun (s, f) =>
      (s, f, behind?.map fun behind => .equals (String.ofList behind))
  | _ =>
    Flag.table.filterMap fun (s, f) =>
      if s.toList = cs.take 2 then some (s, f, some (.glued (String.ofList (cs.drop 2))))
      else if cs.isPrefixOf s.toList then some (s, f, none)
      else none

/-- What a single argument is, if no double dash stands in front of it. -/
def classify (argument : String) : Except UsageError Kind :=
  let cs := argument.toList
  if cs.head? ≠ some '-' then .ok .value
  else
    match Flag.table.lookup argument with
    | some f => .ok (.option f none)
    | none =>
      if cs.length = 1 then .ok .value
      else
        let (front, behind?) := splitEquals cs
        match Flag.table.lookup (String.ofList front), behind? with
        | some f, some behind =>
          .ok (.option f (some (Joined.ofSpelling front (String.ofList behind))))
        | _, _ =>
          match candidates cs with
          | [(_, f, joined?)] => .ok (.option f joined?)
          | [] => .ok (if isNegativeNumber cs || ' ' ∈ cs then .value else .unknownOption)
          | several => .error (.ambiguous argument (several.map (·.1)))

/-- What each argument is. Behind a double dash everything is a value. -/
def classifyAll : List String → Except UsageError (List (String × Kind))
  | [] => .ok []
  | a :: arguments =>
    if a = "--" then .ok ((a, .separator) :: arguments.map (·, .value))
    else
      match classify a with
      | .error e => .error e
      | .ok kind => (classifyAll arguments).map ((a, kind) :: ·)

/-! ## Gathering values -/

/-- An option with the values directly behind it, and what else stands in front of the
next option. An option that is not known has no flag. -/
structure Segment where
  argument : String
  flag? : Option (Flag × Option Joined)
  values : List String
  others : List String

/-- Arguments in front of the first option: values, and the others from the first
separator on. -/
structure Loose where
  values : List String
  others : List String

namespace Loose

def consValue (s : String) (l : Loose) : Loose := { l with values := s :: l.values }

def consSeparator (s : String) (l : Loose) : Loose := ⟨[], s :: l.values ++ l.others⟩

end Loose

/-- The loose arguments at the front, and the segments behind them. -/
def segments : List (String × Kind) → Loose × List Segment
  | [] => (⟨[], []⟩, [])
  | (s, kind) :: arguments =>
    let (loose, rest) := segments arguments
    match kind with
    | .value => (loose.consValue s, rest)
    | .separator => (loose.consSeparator s, rest)
    | .option f joined? =>
      (⟨[], []⟩, ⟨s, some (f, joined?), loose.values, loose.others⟩ :: rest)
    | .unknownOption => (⟨[], []⟩, ⟨s, none, loose.values, loose.others⟩ :: rest)

/-! ## Options -/

/-- What the options have said so far. -/
structure Options where
  config? : Option String
  programs : List String
  indices? : Option (List Int)
  seed? : Option Int
  full : Bool

namespace Options

def none : Options := ⟨.none, [], .none, .none, false⟩

end Options

/-- The answer to the arguments: a request for help, or options, with the arguments that
belong to none. -/
inductive Reading
  | help
  | options (o : Options) (extras : List String)

def integer (f : Flag) (s : String) : Except UsageError Int :=
  match Text.looseInteger? s.toList with
  | some n => .ok n
  | none => .error (.notAnInteger f s)

def integers (f : Flag) : List String → Except UsageError (List Int)
  | [] => .ok []
  | s :: ss =>
    match integer f s with
    | .error e => .error e
    | .ok n => (integers f ss).map (n :: ·)

/-- Gives an option its values. -/
def Options.set (o : Options) (f : Flag) (values : List String) : Except UsageError Options :=
  match f, values with
  | .config, [s] => .ok { o with config? := some s }
  | .program, [s] => .ok { o with programs := o.programs ++ [s] }
  | .seed, [s] => (integer f s).map fun n => { o with seed? := some n }
  | .indices, _ => (integers f values).map fun ns => { o with indices? := some ns }
  | .full, _ => .ok { o with full := true }
  | _, _ => .ok o

/-- Whether a text glued to the help option repeats that option. From the first letter that
does not, the text is an argument that help ignores. -/
def gluedToHelp (text : List Char) : Except UsageError Unit :=
  match text with
  | ['h'] => .ok ()
  | 'h' :: rest => gluedToHelp rest
  | _ => .error (.ignored .help (String.ofList text))

/-- The values that an option takes of those behind it, and those that it leaves. -/
def takeValues (f : Flag) (values : List String) : Except UsageError (List String × List String) :=
  match f with
  | .help => .ok ([], values)
  | .full => .ok ([], values)
  | .indices => if values.isEmpty then .error (.expectedSome f) else .ok (values, [])
  | .config | .program | .seed =>
    match values with
    | [] => .error (.expectedOne f)
    | s :: rest => .ok ([s], rest)

/-- Lets the options take effect one after the other. -/
def applySegments (o : Options) (extras : List String) :
    List Segment → Except UsageError Reading
  | [] => .ok (.options o extras)
  | segment :: rest =>
    match segment.flag? with
    | none =>
      applySegments o (extras ++ segment.argument :: segment.values ++ segment.others) rest
    | some (.help, none) => .ok .help
    | some (.help, some (.equals text)) => .error (.ignored .help text)
    | some (.help, some (.glued text)) => (gluedToHelp text.toList).map fun _ => .help
    | some (.full, some (.equals text)) => .error (.ignored .full text)
    | some (f, some (.equals text)) | some (f, some (.glued text)) =>
      match o.set f [text] with
      | .error e => .error e
      | .ok o => applySegments o (extras ++ segment.values ++ segment.others) rest
    | some (f, none) =>
      match takeValues f segment.values with
      | .error e => .error e
      | .ok (taken, left) =>
        match o.set f taken with
        | .error e => .error e
        | .ok o => applySegments o (extras ++ left ++ segment.others) rest

/-- Arguments that have been read: a path and programs are always there. -/
structure Invocation where
  config : String
  programs : List String
  indices? : Option (List Int)
  seed? : Option Int
  full : Bool

/-- A request for help, or an invocation. -/
inductive Command
  | help
  | evaluate (i : Invocation)

/-- The invocation that options are, if none is missing and nothing is left over. -/
def Invocation.ofOptions (o : Options) (extras : List String) : Except UsageError Invocation :=
  match o.config? with
  | none => .error (.missing (.config :: if o.programs.isEmpty then [.program] else []))
  | some config =>
    if o.programs.isEmpty then .error (.missing [.program])
    else if !extras.isEmpty then .error (.unrecognized extras)
    else .ok ⟨config, o.programs, o.indices?, o.seed?, o.full⟩

/-- Reads the arguments of the command line. -/
def Command.ofArguments (arguments : List String) : Except UsageError Command :=
  match classifyAll arguments with
  | .error e => .error e
  | .ok classified =>
    let (loose, rest) := segments classified
    match applySegments .none (loose.values ++ loose.others) rest with
    | .error e => .error e
    | .ok .help => .ok .help
    | .ok (.options o extras) => (Invocation.ofOptions o extras).map .evaluate

end PushFitness.CommandLine
