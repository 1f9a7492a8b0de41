import LineCalculator.Buffer
import LineCalculator.Calculator.Basic
import LineCalculator.Calculator.Loop
import LineCalculator.Calculator.Run
import LineCalculator.Console
import LineCalculator.Evaluation.Run
import LineCalculator.Evaluation.State
import LineCalculator.Evaluation.Step
import LineCalculator.Failure
import LineCalculator.Flag
import LineCalculator.Level
import LineCalculator.Main
import LineCalculator.Number.Double
import LineCalculator.Number.General
import LineCalculator.Number.Integer
import LineCalculator.Number.Numeral
import LineCalculator.Number.Significant
import LineCalculator.Proofs.BitPattern
import LineCalculator.Proofs.BufferSize
import LineCalculator.Proofs.Coherence
import LineCalculator.Proofs.Counter
import LineCalculator.Proofs.Decimal
import LineCalculator.Proofs.Denotation
import LineCalculator.Proofs.DepthLimit
import LineCalculator.Proofs.Descent
import LineCalculator.Proofs.DescentAgreement
import LineCalculator.Proofs.Divisors
import LineCalculator.Proofs.Ends
import LineCalculator.Proofs.ExactDouble
import LineCalculator.Proofs.Exchange
import LineCalculator.Proofs.ExitStatus
import LineCalculator.Proofs.Fault
import LineCalculator.Proofs.FirstArgument
import LineCalculator.Proofs.HasRead
import LineCalculator.Proofs.Insertion
import LineCalculator.Proofs.IntegerNumeral
import LineCalculator.Proofs.Juncture
import LineCalculator.Proofs.LevelNames
import LineCalculator.Proofs.LineBuffer
import LineCalculator.Proofs.Literal
import LineCalculator.Proofs.Locality
import LineCalculator.Proofs.LongNumeral
import LineCalculator.Proofs.Misplaced
import LineCalculator.Proofs.Misuse
import LineCalculator.Proofs.NearDouble
import LineCalculator.Proofs.Nearest
import LineCalculator.Proofs.Nesting
import LineCalculator.Proofs.NumeralFold
import LineCalculator.Proofs.OneLine
import LineCalculator.Proofs.OwnFailures
import LineCalculator.Proofs.Passage
import LineCalculator.Proofs.Phrase
import LineCalculator.Proofs.PhraseRun
import LineCalculator.Proofs.Precedence
import LineCalculator.Proofs.PrintedNumber
import LineCalculator.Proofs.ReadBack
import LineCalculator.Proofs.ReadLoop
import LineCalculator.Proofs.Records
import LineCalculator.Proofs.Relocation
import LineCalculator.Proofs.Scanning
import LineCalculator.Proofs.SettledFailure
import LineCalculator.Proofs.Standing
import LineCalculator.Proofs.Taken
import LineCalculator.Proofs.Tenfold
import LineCalculator.Proofs.Terminal
import LineCalculator.Proofs.Tiling
import LineCalculator.Proofs.TokenOrder
import LineCalculator.Proofs.Tree
import LineCalculator.Proofs.Unbounded
import LineCalculator.Proofs.Walk
import LineCalculator.Proofs.Writing
import LineCalculator.Proofs.ZeroDivisor
import LineCalculator.Reading
import LineCalculator.Refusal
import LineCalculator.Settings
import LineCalculator.Text.Basic
import LineCalculator.Text.Blank
import LineCalculator.Text.DecimalDigit
import LineCalculator.Text.Digits
import LineCalculator.Text.Lines
import LineCalculator.Text.Printable
import LineCalculator.Text.Quoted
import LineCalculator.Text.Run
import LineCalculator.Token.Basic
import LineCalculator.Token.Lexed
import LineCalculator.Token.Scan
