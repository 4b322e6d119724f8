import PushFitness.Program.Atom
import PushFitness.Settings.Yaml.Timestamp
import PushFitness.Text.Quoted

/-!
# Faults of documents

Most faulty documents are malformed, and no more is said about them. A scalar that is
in order but denotes nothing has a fault of its own.
-/

namespace PushFitness.Yaml

/-- Why a text has no value. -/
inductive Fault
  | malformed
  | noCharacter
  | codeTooLarge
  | emptyNumber
  | tooManyDigits (e : TooManyDigits)
  | notAnInteger (base : Nat) (text : String)
  | notADouble (text : String)
  | doubleTooLarge
  | notATruth (text : String)
  | notATimestamp
  | calendar (fault : CalendarFault)
deriving DecidableEq

def Fault.message : Fault → String
  | malformed => "config file is not valid YAML"
  | noCharacter => "chr() arg not in range(0x110000)"
  | codeTooLarge => "Python int too large to convert to C int"
  | emptyNumber => "string index out of range"
  | tooManyDigits e => e.message
  | notAnInteger base text =>
    "invalid literal for int() with base " ++ toString base ++ ": " ++ Text.quoted text
  | notADouble text => "could not convert string to float: " ++ Text.quoted text
  | doubleTooLarge => "int too large to convert to float"
  | notATruth text => Text.quoted text
  | notATimestamp => "'NoneType' object has no attribute 'groupdict'"
  | calendar fault => fault.message

/-- A text that is not in order. -/
def malformed {α : Type} : Except Fault α := .error .malformed

end PushFitness.Yaml
