import FormCode.Binary64.Basic
import FormCode.Binary64.Rounding
import FormCode.Binary64.Shortest
import FormCode.Binary64.Text
import FormCode.Code.Buffer
import FormCode.Code.CodeUnit
import FormCode.Code.Constants
import FormCode.Code.Emission
import FormCode.Code.Instr
import FormCode.Code.Machine
import FormCode.Code.Pool
import FormCode.Code.Recorder
import FormCode.Code.Target
import FormCode.Command.Arguments
import FormCode.Command.Report
import FormCode.Command.Run
import FormCode.Error
import FormCode.Expr.Basic
import FormCode.Expr.Context
import FormCode.Expr.OfForm
import FormCode.Main
import FormCode.Numeral.Decimal
import FormCode.Numeral.Integer
import FormCode.Proofs.Binary64.Rounding
import FormCode.Proofs.Binary64.Text
import FormCode.Proofs.Code.Body
import FormCode.Proofs.Code.Emission
import FormCode.Proofs.Code.Encoding
import FormCode.Proofs.Code.Execution
import FormCode.Proofs.Code.Failure
import FormCode.Proofs.Code.Fusion
import FormCode.Proofs.Code.HostObjects
import FormCode.Proofs.Code.Immediates
import FormCode.Proofs.Code.Interning
import FormCode.Proofs.Code.Listing
import FormCode.Proofs.Code.Occurrences
import FormCode.Proofs.Code.Pool
import FormCode.Proofs.Code.Recording
import FormCode.Proofs.Code.Sequence
import FormCode.Proofs.Command.Arguments
import FormCode.Proofs.Command.Effects
import FormCode.Proofs.Command.FileCompilation
import FormCode.Proofs.Command.Naming
import FormCode.Proofs.Except
import FormCode.Proofs.Expr.Closure
import FormCode.Proofs.Expr.Quotes
import FormCode.Proofs.Numeral.Digits
import FormCode.Proofs.Numeral.Literal
import FormCode.Proofs.Reader.Acceptance
import FormCode.Proofs.Reader.Closure
import FormCode.Proofs.Reader.Derivation
import FormCode.Proofs.Reader.Descent
import FormCode.Proofs.Reader.First
import FormCode.Proofs.Reader.Lines
import FormCode.Proofs.Reader.Nesting
import FormCode.Proofs.Reader.Places
import FormCode.Proofs.Regex.Derivative
import FormCode.Proofs.Regex.Longest
import FormCode.Proofs.Source.Compile
import FormCode.Proofs.Source.Keys
import FormCode.Proofs.Source.Preceding
import FormCode.Proofs.Storage.Files
import FormCode.Proofs.Text.CharQuote
import FormCode.Proofs.Text.Lines
import FormCode.Proofs.Text.Literals
import FormCode.Proofs.Text.Location
import FormCode.Proofs.Text.Places
import FormCode.Proofs.Token.Ambiguity
import FormCode.Proofs.Token.AtomText
import FormCode.Proofs.Token.Choice
import FormCode.Proofs.Token.Division
import FormCode.Proofs.Token.Faults
import FormCode.Proofs.Token.Lexeme
import FormCode.Proofs.Token.Numerals
import FormCode.Proofs.Token.Places
import FormCode.Proofs.Token.Printed
import FormCode.Proofs.Token.Scan
import FormCode.Proofs.Token.Seam
import FormCode.Proofs.Value.Distinct
import FormCode.Proofs.Value.Equality
import FormCode.Proofs.Value.Hash
import FormCode.Proofs.Value.Induction
import FormCode.Proofs.Value.Objects
import FormCode.Proofs.Value.OneLine
import FormCode.Proofs.Value.ReadBack
import FormCode.Proofs.Value.Reordering
import FormCode.Proofs.Value.Tokens
import FormCode.Reader
import FormCode.Reader.Descent
import FormCode.Regex
import FormCode.Source
import FormCode.Storage.Basic
import FormCode.Storage.Files
import FormCode.Storage.Path
import FormCode.Text.Blank
import FormCode.Text.CharLiteral
import FormCode.Text.CharQuote
import FormCode.Text.Combining
import FormCode.Text.Lines
import FormCode.Text.Location
import FormCode.Text.Printable
import FormCode.Text.Quoted
import FormCode.Text.Ranges
import FormCode.Token.Basic
import FormCode.Token.Lexer
import FormCode.Token.Rule
import FormCode.Value.Basic
import FormCode.Value.Equality
import FormCode.Value.Hash
import FormCode.Value.Printer
