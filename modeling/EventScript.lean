import EventScript.Arguments
import EventScript.Assembly.Item
import EventScript.Assembly.Text
import EventScript.CommandLine
import EventScript.Compile
import EventScript.Condition
import EventScript.Diagnostic
import EventScript.Journal
import EventScript.Lowering.Context
import EventScript.Lowering.Program
import EventScript.Lowering.Statement
import EventScript.Lowering.Step
import EventScript.Main
import EventScript.Program.Basic
import EventScript.Program.Jumps
import EventScript.Program.Outline
import EventScript.Proofs.Arguments
import EventScript.Proofs.Checked.Agreement
import EventScript.Proofs.Checked.Basic
import EventScript.Proofs.Checked.Compiling
import EventScript.Proofs.Checked.Condition
import EventScript.Proofs.Checked.Declaration
import EventScript.Proofs.Checked.Lexing
import EventScript.Proofs.Checked.Outline
import EventScript.Proofs.Checked.Statement
import EventScript.Proofs.Concatenation.Compiling
import EventScript.Proofs.Concatenation.EndMark
import EventScript.Proofs.Concatenation.Lowering
import EventScript.Proofs.Concatenation.Reading
import EventScript.Proofs.Grammar.Arguments
import EventScript.Proofs.Grammar.Condition
import EventScript.Proofs.Grammar.Declaration
import EventScript.Proofs.Grammar.Display
import EventScript.Proofs.Grammar.Ended
import EventScript.Proofs.Grammar.Fits
import EventScript.Proofs.Grammar.Local
import EventScript.Proofs.Grammar.Order
import EventScript.Proofs.Grammar.Phrase
import EventScript.Proofs.Grammar.Program
import EventScript.Proofs.Grammar.Run
import EventScript.Proofs.Grammar.Statement
import EventScript.Proofs.Grammar.Syntax
import EventScript.Proofs.Grammar.Words
import EventScript.Proofs.Grammar.Written
import EventScript.Proofs.Lowering.Agreement
import EventScript.Proofs.Lowering.Closed
import EventScript.Proofs.Lowering.Declared
import EventScript.Proofs.Lowering.Definitions
import EventScript.Proofs.Lowering.Direct
import EventScript.Proofs.Lowering.Literal
import EventScript.Proofs.Lowering.MapScripts
import EventScript.Proofs.Lowering.Naming
import EventScript.Proofs.Lowering.Outcome
import EventScript.Proofs.Lowering.Pieces
import EventScript.Proofs.Lowering.Placed
import EventScript.Proofs.Lowering.Repeated
import EventScript.Proofs.Lowering.Unbound
import EventScript.Proofs.Lowering.Unique
import EventScript.Proofs.Meaning.BlankLines
import EventScript.Proofs.Meaning.Fragment
import EventScript.Proofs.Meaning.Game
import EventScript.Proofs.Meaning.Listing
import EventScript.Proofs.Meaning.Machine
import EventScript.Proofs.Meaning.Preservation
import EventScript.Proofs.Meaning.Sections
import EventScript.Proofs.Meaning.Simulation
import EventScript.Proofs.Meaning.Structured
import EventScript.Proofs.Program.Binding
import EventScript.Proofs.Program.JumpOrder
import EventScript.Proofs.Program.Nested
import EventScript.Proofs.Program.Parts
import EventScript.Proofs.Program.WellFormed
import EventScript.Proofs.Reader.Basic
import EventScript.Proofs.Reader.Moves
import EventScript.Proofs.Reader.Program
import EventScript.Proofs.Reader.Progress
import EventScript.Proofs.Reader.Statement
import EventScript.Proofs.Recovery.Alike
import EventScript.Proofs.Recovery.Bounds
import EventScript.Proofs.Recovery.Declaration
import EventScript.Proofs.Recovery.EndInParens
import EventScript.Proofs.Recovery.Lexical
import EventScript.Proofs.Recovery.Messages
import EventScript.Proofs.Recovery.OpenParens
import EventScript.Proofs.Recovery.Order
import EventScript.Proofs.Recovery.Segments
import EventScript.Proofs.Recovery.Statement
import EventScript.Proofs.Relocation.Basic
import EventScript.Proofs.Relocation.Layout
import EventScript.Proofs.Relocation.Lowering
import EventScript.Proofs.Relocation.Numbering
import EventScript.Proofs.Relocation.Reading
import EventScript.Proofs.Session.Fresh
import EventScript.Proofs.Session.Joined
import EventScript.Proofs.Session.Names
import EventScript.Proofs.Token.LastLine
import EventScript.Proofs.Token.OneLine
import EventScript.Proofs.Token.Quotes
import EventScript.Proofs.Token.Seam
import EventScript.Proofs.Token.Spelling
import EventScript.Proofs.Token.Tiling
import EventScript.Proofs.Trace.Arguments
import EventScript.Proofs.Trace.Basic
import EventScript.Proofs.Trace.Calls
import EventScript.Proofs.Trace.Declaration
import EventScript.Proofs.Trace.Diagnostics
import EventScript.Proofs.Trace.Lines
import EventScript.Proofs.Trace.Statement
import EventScript.Proofs.Trace.Texts
import EventScript.Proofs.Unfinished.Declaration
import EventScript.Proofs.Unfinished.Delimiters
import EventScript.Proofs.Unfinished.Due
import EventScript.Proofs.Unfinished.Reading
import EventScript.Reader.Basic
import EventScript.Reader.Condition
import EventScript.Reader.Declaration
import EventScript.Reader.Error
import EventScript.Reader.Program
import EventScript.Reader.Run
import EventScript.Reader.Statement
import EventScript.Session
import EventScript.Span
import EventScript.Text.Quoted
import EventScript.Text.Unprintable
import EventScript.Token.Basic
import EventScript.Token.Kind
import EventScript.Token.Lexer
