import LineCalculator.Expression.Grammar
import LineCalculator.Main
import LineCalculator.Variables.Checkpoint
import LineCalculator.Proofs.Expression.Postorder
import LineCalculator.Proofs.Expression.Reading
import LineCalculator.Proofs.Expression.Writing
import LineCalculator.Proofs.Expression.Meaning
import LineCalculator.Proofs.Expression.Counting
import LineCalculator.Proofs.Expression.Juxtaposition
import LineCalculator.Proofs.Expression.Faults
import LineCalculator.Proofs.Console.Hearing
import LineCalculator.Proofs.History
import LineCalculator.Proofs.Console.WholeInput
import LineCalculator.Proofs.Console.Filling
import LineCalculator.Proofs.Expression.Spelling
import LineCalculator.Proofs.Console.Respelling
import LineCalculator.Proofs.Expression.Renaming
import LineCalculator.Proofs.RenamedLines
import LineCalculator.Proofs.Expression.Rebuilding
import LineCalculator.Proofs.Expression.Staging
import LineCalculator.Proofs.Console.Views
import LineCalculator.Proofs.StoredVariables
import LineCalculator.Proofs.Expression.Evaluation
import LineCalculator.Proofs.Expression.Arrangement
import LineCalculator.Proofs.Expression.Isolation
import LineCalculator.Proofs.Expression.LongestRuns
import LineCalculator.Proofs.Expression.MissingOperands
import LineCalculator.Proofs.Request.Bytewise
import LineCalculator.Proofs.Request.Grammar
import LineCalculator.Proofs.EnteredIntegers
import LineCalculator.Proofs.InlinedValues
import LineCalculator.Proofs.NamesRead
import LineCalculator.Proofs.Console.Blanks
import LineCalculator.Proofs.Console.JsonLines
import LineCalculator.Proofs.Console.Undecodable
import LineCalculator.Proofs.Expression.Stretches
import LineCalculator.Proofs.Snapshots
import LineCalculator.Proofs.UnneededGuards
import LineCalculator.Proofs.CommandLine.Routes
