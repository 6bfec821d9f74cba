import Fixture.Arithmetic
import Fixture.CommandLine
import Fixture.CommandLine.Flags
import Fixture.CommandLine.Help
import Fixture.Decimal.Binary
import Fixture.Decimal.Layout
import Fixture.Decimal.Shortest
import Fixture.Encoder
import Fixture.Evaluate
import Fixture.Fault
import Fixture.Folder
import Fixture.Journal
import Fixture.Journal.Lines
import Fixture.Journal.Notes
import Fixture.Lexeme
import Fixture.Machine
import Fixture.Main
import Fixture.Numeral
import Fixture.Numeral.Radix
import Fixture.Parse
import Fixture.Position
import Fixture.Proofs.Arithmetic
import Fixture.Proofs.Arithmetic.Floor
import Fixture.Proofs.Decimal
import Fixture.Proofs.Decimal.Bits
import Fixture.Proofs.Decimal.Positional
import Fixture.Proofs.Decimal.Rounding
import Fixture.Proofs.Decimal.Scientific
import Fixture.Proofs.Decimal.Shortest
import Fixture.Proofs.Declared
import Fixture.Proofs.Encoder.Actions
import Fixture.Proofs.Encoder.Channels
import Fixture.Proofs.Encoder.FailStop
import Fixture.Proofs.Encoder.Likeness
import Fixture.Proofs.Encoder.Modes
import Fixture.Proofs.Encoder.Refinement
import Fixture.Proofs.Evaluation.Blame
import Fixture.Proofs.Evaluation.Exact
import Fixture.Proofs.Evaluation.Modular
import Fixture.Proofs.Evaluation.Operators
import Fixture.Proofs.Evaluation.Order
import Fixture.Proofs.Grammar
import Fixture.Proofs.Grammar.Accepts
import Fixture.Proofs.Grammar.Calls
import Fixture.Proofs.Grammar.Complete
import Fixture.Proofs.Grammar.Earliest
import Fixture.Proofs.Grammar.Obeys
import Fixture.Proofs.Grammar.Plans
import Fixture.Proofs.Grammar.Skim
import Fixture.Proofs.Grammar.Sound
import Fixture.Proofs.Grammar.Stretches
import Fixture.Proofs.Grammar.Termination
import Fixture.Proofs.Grammar.Unambiguous
import Fixture.Proofs.Grammar.Viable
import Fixture.Proofs.Inspection
import Fixture.Proofs.Kinds
import Fixture.Proofs.Layout
import Fixture.Proofs.Layout.Offsets
import Fixture.Proofs.Layout.Separated
import Fixture.Proofs.Layout.Settling
import Fixture.Proofs.NormalForm
import Fixture.Proofs.Places
import Fixture.Proofs.Places.Evaluation
import Fixture.Proofs.Places.Reading
import Fixture.Proofs.Printing
import Fixture.Proofs.Printing.Programs
import Fixture.Proofs.Printing.Statements
import Fixture.Proofs.Reading
import Fixture.Proofs.RoundTrip
import Fixture.Proofs.Run.Blame
import Fixture.Proofs.Run.Cancellation
import Fixture.Proofs.Run.Composition
import Fixture.Proofs.Run.Duplicates
import Fixture.Proofs.Run.Effort
import Fixture.Proofs.Run.FailStop
import Fixture.Proofs.Run.Faults
import Fixture.Proofs.Run.Frame
import Fixture.Proofs.Run.History
import Fixture.Proofs.Run.Invariant
import Fixture.Proofs.Run.Lockstep
import Fixture.Proofs.Run.Loops
import Fixture.Proofs.Run.Moves
import Fixture.Proofs.Run.Orderly
import Fixture.Proofs.Run.Passes
import Fixture.Proofs.Run.Reread
import Fixture.Proofs.Run.Rerun
import Fixture.Proofs.Run.Unplaced
import Fixture.Proofs.Settings.Saved
import Fixture.Proofs.Spelling
import Fixture.Proofs.Toml
import Fixture.Proofs.Toml.Documents
import Fixture.Proofs.Toml.Lawful
import Fixture.Proofs.Toml.Values
import Fixture.Run
import Fixture.Run.Host
import Fixture.Run.Node
import Fixture.Scan
import Fixture.SerialLine
import Fixture.Settings
import Fixture.Surroundings
import Fixture.Table
import Fixture.Tables
import Fixture.Text.Blank
import Fixture.Text.Grid
import Fixture.Text.Join
import Fixture.Text.Printable
import Fixture.Text.Quoted
import Fixture.Text.Utf8
import Fixture.Token
import Fixture.Token.Kind
import Fixture.Toml
import Fixture.Toml.Contents
import Fixture.Toml.Document
import Fixture.Toml.Grammar
import Fixture.Toml.Package
import Fixture.Toml.Tree
import Fixture.Tree
import Fixture.Tree.Dump
import Fixture.Tree.Render
import Fixture.Value
