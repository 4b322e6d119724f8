import PushFitness.CommandLine.Arguments

/-!
# What the command says about itself

The usage lines stand in front of a fault in the arguments, and at the head of the
answer to a request for help.
-/

namespace PushFitness.CommandLine

/-- The name of the command. -/
def commandName : String := "push-surrogate"

/-- The options at a glance. -/
def usage : List String := [
  "usage: push-surrogate [-h] --config CONFIG --program PROGRAM",
  "                      [--indices INDICES [INDICES ...]] [--seed SEED] [--full]"]

/-- The answer to a request for help. -/
def help : List String := usage ++ [
  "",
  "Estimate Push program fitness from a sample of test cases.",
  "",
  "options:",
  "  -h, --help            show this help message and exit",
  "  --config CONFIG       Path to the experiment YAML file.",
  "  --program PROGRAM     Push program to evaluate, e.g. \"( integer.dup",
  "                        integer.* )\". Repeat to evaluate several programs.",
  "  --indices INDICES [INDICES ...]",
  "                        Explicit sample indices; drawn at random when omitted.",
  "  --seed SEED           Seed for random index sampling (overrides the config",
  "                        seed).",
  "  --full                Also compute the true fitness over every test case."]

/-- The line about a fault in the arguments. -/
def faultLine (e : UsageError) : String := commandName ++ ": error: " ++ e.message

end PushFitness.CommandLine
