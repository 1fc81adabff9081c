import Shank.Main
import Shank.Session
import Shank.Syntax.Same
import Shank.Proofs.Run.Isolation
import Shank.Proofs.Run.Invariant
import Shank.Proofs.Indentation
import Shank.Proofs.RoundTrip
import Shank.Proofs.Token.Grammar
import Shank.Proofs.Parse.Grammar
import Shank.Proofs.Run.CallStack
import Shank.Proofs.Run.Constants
import Shank.Proofs.Levels
import Shank.Proofs.Endings
import Shank.Proofs.Run.Misuse
import Shank.Proofs.Run.Reachable
import Shank.Proofs.Run.CallLimit
import Shank.Proofs.Merging
import Shank.Proofs.Padding
import Shank.Proofs.WellShaped
import Shank.Proofs.Run.Assignment
import Shank.Proofs.Run.Counting
import Shank.Proofs.CommandLine
import Shank.Proofs.Numeral.Reading
import Shank.Proofs.Run.Lossless
import Shank.Proofs.Run.Conversion
import Shank.Proofs.Run.IntegerArithmetic
import Shank.Proofs.Token.Accounting
import Shank.Proofs.Run.CountingReals
import Shank.Proofs.Lines
import Shank.Proofs.ReadAhead
import Shank.Proofs.ElseIf
import Shank.Proofs.Safety
import Shank.Proofs.NumberTokens
import Shank.Proofs.Run.Input
import Shank.Proofs.Initial
import Shank.Proofs.Run.Slices
import Shank.Proofs.Token.Pointer
import Shank.Proofs.Token.BlankRuns
import Shank.Proofs.Token.LineEnds
import Shank.Proofs.Token.Scanning
import Shank.Proofs.Dump.Faithful
