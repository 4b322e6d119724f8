/-!
# Log records

What a computation reports on its way is part of its result: a list of records in
the order in which they were made. A record has a level, the name of the part
that made it, and a message.
-/

namespace PushFitness

/-- The standard levels, from the lowest to the highest. -/
inductive LogLevel
  | notSet
  | debug
  | info
  | warning
  | error
  | critical
deriving DecidableEq

namespace LogLevel

/-- The number by which levels are compared. -/
def severity : LogLevel → Nat
  | notSet => 0
  | debug => 10
  | info => 20
  | warning => 30
  | error => 40
  | critical => 50

def text : LogLevel → String
  | notSet => "NOTSET"
  | debug => "DEBUG"
  | info => "INFO"
  | warning => "WARNING"
  | error => "ERROR"
  | critical => "CRITICAL"

end LogLevel

/-- A report. -/
structure LogRecord where
  level : LogLevel
  logger : String
  message : String
deriving DecidableEq

namespace LogRecord

/-- A record as a line without its time: the level in eight columns, the name, the
message. -/
def line (r : LogRecord) : String :=
  let level := r.level.text.toList
  String.ofList (level ++ List.replicate (8 - level.length) ' ') ++ " " ++ r.logger ++ " - "
    ++ r.message

end LogRecord

end PushFitness
