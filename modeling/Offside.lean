import Offside.Unicode.Alphabetic
import Offside.Unicode.Number
import Offside.Unicode.GraphemeExtend
import Offside.Unicode.Printable
import Offside.Unicode.WhiteSpace
import Offside.Source.Reader
import Offside.Source.Line
import Offside.Mode
import Offside.Number.Numeral
import Offside.Number.Shortest
import Offside.Token.Basic
import Offside.Fault.Excerpt
import Offside.Scan
import Offside.Tree.Basic
import Offside.Tree.Same
import Offside.Tree.Node
import Offside.Tree.Dump
import Offside.Program
import Offside.Check
import Offside.Main
import Offside.Proofs.Parse.Facing
import Offside.Proofs.Grammar.Reading
import Offside.Proofs.Grammar.Phrase
import Offside.Proofs.Parse.Sound
import Offside.Proofs.Grammar.Part
import Offside.Proofs.Parse.Expression
import Offside.Proofs.Parse.Program
import Offside.Proofs.Parse.Statement
import Offside.Proofs.Derivation
import Offside.Proofs.Writing
import Offside.Proofs.Parse.Needs
import Offside.Proofs.Parse.CompleteProgram
import Offside.Proofs.Grammar.Transport
import Offside.Proofs.Parse.CompleteExpression
import Offside.Proofs.Scan.Run
import Offside.Proofs.Scan.Extend
import Offside.Proofs.Scan.Balance
import Offside.Proofs.BareReturn
import Offside.Proofs.FinalBreak
import Offside.Proofs.Parse.Agree
import Offside.Proofs.Parse.AgreeLevel
import Offside.Proofs.Scan.Mode
import Offside.Proofs.Strictness
import Offside.Proofs.Tiers
import Offside.Proofs.Scan.Lines
import Offside.Proofs.Number.Quantity
import Offside.Proofs.Number.Rounding
import Offside.Proofs.Number.Nearest
import Offside.Proofs.Scan.Lexeme
import Offside.Proofs.Segmentation
import Offside.Proofs.Parse.Outcome
import Offside.Proofs.Parse.Viable
import Offside.Proofs.Parse.ViableLevel
import Offside.Proofs.FaultPlace
import Offside.Proofs.Nesting
import Offside.Proofs.BlockSyntax
import Offside.Proofs.BraceBreaks
import Offside.Proofs.Grammar.Moved
import Offside.Proofs.Scan.Join
import Offside.Proofs.Concatenation
import Offside.Proofs.Scan.Rows
import Offside.Proofs.Indentation
import Offside.Proofs.Scan.Reread
import Offside.Proofs.Scan.Relaid
import Offside.Proofs.Parse.Compare
import Offside.Proofs.Parse.CompareLevel
import Offside.Proofs.Parse.Track
import Offside.Proofs.Parse.Routine
import Offside.Proofs.Parse.Rounds
import Offside.Proofs.Relaying
import Offside.Proofs.Discipline
import Offside.Proofs.Strings
import Offside.Proofs.Scan.Truncate
import Offside.Proofs.Parse.Blame
import Offside.Proofs.LexicalFault
import Offside.Proofs.NodePositions
import Offside.Proofs.Scan.Alike
import Offside.Proofs.BlankLines
import Offside.Proofs.LineEndings
import Offside.Proofs.Reindenting
import Offside.Proofs.Parse.Guard
import Offside.Proofs.Parse.Spending
import Offside.Proofs.NestingGuard
import Offside.Proofs.FaultExcerpt
import Offside.Proofs.Tree.Positions
import Offside.Proofs.Tree.Agreement
import Offside.Proofs.Scan.Indents
import Offside.Proofs.NodeSoundness
