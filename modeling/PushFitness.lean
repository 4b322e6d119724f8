import PushFitness.Binary64.Magnitude
import PushFitness.Binary64.Basic
import PushFitness.Binary64.Decimal
import PushFitness.Binary64.Text
import PushFitness.Binary64.Elementary
import PushFitness.Binary64.Sum
import PushFitness.Text.Numeral
import PushFitness.Text.Quoted
import PushFitness.Program.Printer
import PushFitness.Program.Reader
import PushFitness.Machine.Run
import PushFitness.Machine.Display
import PushFitness.Fitness.Context
import PushFitness.Settings.Environment
import PushFitness.Predictor.Session
import PushFitness.CommandLine.Evaluation
import PushFitness.Main
import PushFitness.Proofs.Int32
import PushFitness.Proofs.Machine.Moves
import PushFitness.Proofs.Machine.Names
import PushFitness.Proofs.Machine.Effects
import PushFitness.Proofs.Machine.Stepping
import PushFitness.Proofs.Machine.Pending
import PushFitness.Proofs.Machine.Slots
import PushFitness.Proofs.Machine.Untyped
import PushFitness.Proofs.Evaluation.Calls
import PushFitness.Proofs.Evaluation.History
import PushFitness.Proofs.Evaluation.Growth
import PushFitness.Proofs.Evaluation.Termination
import PushFitness.Proofs.Evaluation.LeftToRight
import PushFitness.Proofs.Evaluation.Limits
import PushFitness.Proofs.Evaluation.Completion
import PushFitness.Proofs.Evaluation.TypeSafety
import PushFitness.Proofs.Program.Size
import PushFitness.Proofs.Program.Words
import PushFitness.Proofs.Program.Grammar
import PushFitness.Proofs.Program.Reading
import PushFitness.Proofs.Program.RoundTrip
import PushFitness.Proofs.Fitness.CaseText
import PushFitness.Proofs.Binary64.Nearest
import PushFitness.Proofs.Binary64.ErrorFree
import PushFitness.Proofs.Binary64.Addition
import PushFitness.Proofs.Binary64.Sum
import PushFitness.Proofs.Fitness.Average
import PushFitness.Proofs.Fitness.AverageRange
import PushFitness.Proofs.Fitness.AverageOrder
import PushFitness.Proofs.Fitness.Values
import PushFitness.Proofs.Predictor.Samples
import PushFitness.Proofs.Predictor.Registry
import PushFitness.Proofs.Evaluation.Turns
import PushFitness.Proofs.Predictor.Session
import PushFitness.Proofs.Predictor.Workers
import PushFitness.Proofs.Predictor.Population
import PushFitness.Proofs.Program.Congruence
import PushFitness.Proofs.Machine.Lockstep
import PushFitness.Proofs.Evaluation.Lockstep
import PushFitness.Proofs.Evaluation.Executable
import PushFitness.Proofs.Fitness.Scoring
import PushFitness.Proofs.Fitness.Solved
import PushFitness.Proofs.Program.Prefix
import PushFitness.Proofs.Program.FirstFault
import PushFitness.Proofs.Fitness.CaseFaults
import PushFitness.Proofs.Fitness.FirstOffence
import PushFitness.Proofs.Fitness.CaseLayout
import PushFitness.Proofs.Binary64.SumRange
import PushFitness.Proofs.Binary64.SumOrder
import PushFitness.Proofs.Predictor.Prediction
import PushFitness.Proofs.Predictor.FullSample
import PushFitness.Proofs.Evaluation.Combinators
import PushFitness.Proofs.Evaluation.Loops
import PushFitness.Proofs.Evaluation.Repetition
import PushFitness.Proofs.Machine.Division
import PushFitness.Proofs.Evaluation.DepthMoves
import PushFitness.Proofs.Machine.Arguments
import PushFitness.Proofs.Evaluation.Expressions
import PushFitness.Proofs.Settings.Copies
import PushFitness.Proofs.Program.Placement
import PushFitness.Proofs.Random.Recurrence
import PushFitness.Proofs.Random.TopBit
import PushFitness.Proofs.Settings.LogLevels
import PushFitness.Proofs.Random.Draws
import PushFitness.Proofs.Predictor.Seeding
import PushFitness.Proofs.CommandLine.Reports
import PushFitness.Proofs.CommandLine.Endings
