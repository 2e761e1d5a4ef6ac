import ProofSheet.Command.Basic
import ProofSheet.Database.Basic
import ProofSheet.Database.Growth
import ProofSheet.Document
import ProofSheet.Formula
import ProofSheet.Interpreter.Basic
import ProofSheet.Interpreter.Outcome
import ProofSheet.Label
import ProofSheet.Main
import ProofSheet.Message
import ProofSheet.ParseTree
import ProofSheet.Reading.Blank
import ProofSheet.Reading.Command
import ProofSheet.Reading.Reader
import ProofSheet.Reading.Step
import ProofSheet.Reading.Worksheet
import ProofSheet.Resolution.Hypothesis
import ProofSheet.Resolution.LoadError
import ProofSheet.Resolution.Target
import ProofSheet.Session
import ProofSheet.Step.Basic
import ProofSheet.Step.Draft
import ProofSheet.Step.Header
import ProofSheet.Step.Renumbering
import ProofSheet.Storage.Basic
import ProofSheet.Storage.FileSystem
import ProofSheet.Storage.Path
import ProofSheet.Text.CharCounter
import ProofSheet.Text.Colour
import ProofSheet.Text.Entity
import ProofSheet.Text.Front
import ProofSheet.Text.Line
import ProofSheet.Text.Splice
import ProofSheet.Text.Utf8
import ProofSheet.Text.WhiteSpace
import ProofSheet.Worksheet.Basic
import ProofSheet.Worksheet.Draft
import ProofSheet.Worksheet.Page
import ProofSheet.Worksheet.Printing
import ProofSheet.Proofs.Database.Formation
import ProofSheet.Proofs.Database.Growth
import ProofSheet.Proofs.Database.Additions
import ProofSheet.Proofs.Reading.Header
import ProofSheet.Proofs.Reading.Formula
import ProofSheet.Proofs.Reading.Statement
import ProofSheet.Proofs.Reading.Sheet
import ProofSheet.Proofs.Reading.Confinement
import ProofSheet.Proofs.Reading.Command
import ProofSheet.Proofs.Session
import ProofSheet.Proofs.Resolution.Resolve
import ProofSheet.Proofs.Document.Claims
import ProofSheet.Proofs.Worksheet.Loading
import ProofSheet.Proofs.Worksheet.Settlement
import ProofSheet.Proofs.Storage.Path
import ProofSheet.Proofs.Interpreter.Reachable
import ProofSheet.Proofs.Interpreter.Refusal
import ProofSheet.Proofs.Database.Promotion
import ProofSheet.Proofs.Worksheet.Promotion
import ProofSheet.Proofs.Worksheet.Reservation
import ProofSheet.Proofs.Worksheet.Counting
import ProofSheet.Proofs.Worksheet.Editing
import ProofSheet.Proofs.Worksheet.Ownership
import ProofSheet.Proofs.Worksheet.Hoisting
import ProofSheet.Proofs.Worksheet.Numbering
import ProofSheet.Proofs.Worksheet.Rereading
import ProofSheet.Proofs.Worksheet.RoundTrip
import ProofSheet.Proofs.Worksheet.Export
import ProofSheet.Proofs.Interpreter.History
import ProofSheet.Proofs.Worksheet.Stability
import ProofSheet.Proofs.Reading.Argument
import ProofSheet.Proofs.Reading.CommandForm
import ProofSheet.Proofs.Reading.CommandText
import ProofSheet.Proofs.Reading.Layout
import ProofSheet.Proofs.Reading.SheetLayout
import ProofSheet.Proofs.Text.Line
import ProofSheet.Proofs.Step.Renumbering
import ProofSheet.Proofs.Document.Renumbering
import ProofSheet.Proofs.Worksheet.Upkeep
import ProofSheet.Proofs.Text.CharCounter
import ProofSheet.Proofs.Text.Entity
import ProofSheet.Proofs.Text.Utf8
import ProofSheet.Proofs.Reading.Soundness
import ProofSheet.Proofs.Reading.Places
import ProofSheet.Proofs.Label
import ProofSheet.Proofs.Reading.TypedNames
import ProofSheet.Proofs.Worksheet.Carets
import ProofSheet.Proofs.Worksheet.Markup
import ProofSheet.Proofs.Interpreter.Naming
import ProofSheet.Proofs.Interpreter.Export
import ProofSheet.Proofs.Reading.Symbols
import ProofSheet.Proofs.Interpreter.Symbols
