import PostfixSheet.Calculation
import PostfixSheet.Cell.Address
import PostfixSheet.Cell.Column
import PostfixSheet.Cell.Outcome
import PostfixSheet.CommandLine.Report
import PostfixSheet.CommandLine.Request
import PostfixSheet.CommandLine.Switch
import PostfixSheet.Csv.Dialect
import PostfixSheet.Csv.Reader
import PostfixSheet.Csv.Record
import PostfixSheet.Csv.Writer
import PostfixSheet.Evaluation.State
import PostfixSheet.Evaluation.Walk
import PostfixSheet.Formula.Fault
import PostfixSheet.Formula.Operator
import PostfixSheet.Formula.Postfix
import PostfixSheet.Formula.Token
import PostfixSheet.Main
import PostfixSheet.Number.Binary64
import PostfixSheet.Number.Decimal
import PostfixSheet.Number.Numeral
import PostfixSheet.Number.Text
import PostfixSheet.Proofs.AddressTexts
import PostfixSheet.Proofs.CallEffects
import PostfixSheet.Proofs.CellOrder
import PostfixSheet.Proofs.Cells
import PostfixSheet.Proofs.ColumnNames
import PostfixSheet.Proofs.ColumnOrder
import PostfixSheet.Proofs.CommandRuns
import PostfixSheet.Proofs.Culprits
import PostfixSheet.Proofs.Cycles
import PostfixSheet.Proofs.Faults
import PostfixSheet.Proofs.FileLines
import PostfixSheet.Proofs.GrownSheets
import PostfixSheet.Proofs.Inlining
import PostfixSheet.Proofs.Learning
import PostfixSheet.Proofs.LeastValues
import PostfixSheet.Proofs.MarkedFiles
import PostfixSheet.Proofs.Nesting
import PostfixSheet.Proofs.NumberTexts
import PostfixSheet.Proofs.OutcomeTexts
import PostfixSheet.Proofs.PastedValues
import PostfixSheet.Proofs.Paths
import PostfixSheet.Proofs.PostfixTrees
import PostfixSheet.Proofs.Ranks
import PostfixSheet.Proofs.ReachedCells
import PostfixSheet.Proofs.ReadRows
import PostfixSheet.Proofs.Reevaluation
import PostfixSheet.Proofs.ReferenceGraph
import PostfixSheet.Proofs.SessionStates
import PostfixSheet.Proofs.Sessions
import PostfixSheet.Proofs.SheetEquation
import PostfixSheet.Proofs.SheetResults
import PostfixSheet.Proofs.Spellings
import PostfixSheet.Proofs.StaleStates
import PostfixSheet.Proofs.States
import PostfixSheet.Proofs.TokenGrammar
import PostfixSheet.Proofs.TokenWords
import PostfixSheet.Proofs.TrimmedCells
import PostfixSheet.Proofs.TwoSheets
import PostfixSheet.Proofs.Utf8Texts
import PostfixSheet.Proofs.Values
import PostfixSheet.Proofs.Walks
import PostfixSheet.Proofs.WholeNumbers
import PostfixSheet.Proofs.WrittenRows
import PostfixSheet.Sheet
import PostfixSheet.Storage.FileTree
import PostfixSheet.Storage.Files
import PostfixSheet.Storage.Path
import PostfixSheet.Storage.SheetFile
import PostfixSheet.Text.Blank
import PostfixSheet.Text.Terminal
import PostfixSheet.Text.UpperCase
import PostfixSheet.Text.Utf8
import PostfixSheet.Proofs.ColumnOrder
