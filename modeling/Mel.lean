import Mel.Token.Lexing
import Mel.Floating.Text
import Mel.Arithmetic
import Mel.Text.Quoted
import Mel.Program.Written
import Mel.Program.Parser
import Mel.Diagnostic
import Mel.Scope
import Mel.Streams
import Mel.Value.Content
import Mel.Value.Operation
import Mel.Evaluation
import Mel.Main
import Mel.Run
import Mel.Proofs.Parallel
import Mel.Proofs.ScopeDiscipline
import Mel.Proofs.Lockstep
import Mel.Proofs.Lockstep.Runs
import Mel.Proofs.Fuel
import Mel.Proofs.Limits
import Mel.Proofs.Embedding
import Mel.Proofs.Canonical
import Mel.Proofs.Writing
import Mel.Proofs.Reading
import Mel.Proofs.RoundTrip
import Mel.Proofs.Termination
import Mel.Proofs.LimitedOutput
import Mel.Proofs.Containment
import Mel.Proofs.References
import Mel.Proofs.Acyclicity
import Mel.Proofs.FailedOutput
import Mel.Proofs.Patterns
import Mel.Proofs.Places
import Mel.Proofs.Relexing
import Mel.Proofs.Parsing
import Mel.Proofs.Refusals
import Mel.Proofs.Alike
import Mel.Proofs.Forms
import Mel.Proofs.Magnitudes
import Mel.Proofs.RealTexts
import Mel.Proofs.Literals
import Mel.Proofs.Readback
import Mel.Proofs.SameText
import Mel.Proofs.Scopes
import Mel.Proofs.FrameLayout
import Mel.Proofs.OuterBindings
import Mel.Proofs.Appending
import Mel.Proofs.Placement
import Mel.Proofs.Mirrors
import Mel.Proofs.Indexing
import Mel.Proofs.Isolation
import Mel.Proofs.BlockStructure
import Mel.Proofs.Lookahead
import Mel.Proofs.Buffering
import Mel.Proofs.InputLines
import Mel.Proofs.IntegerOperators
import Mel.Proofs.Policies
import Mel.Proofs.BitLiterals
import Mel.Proofs.Precedence
import Mel.Proofs.WordArithmetic
import Mel.Proofs.LongestMatch
import Mel.Proofs.SharedArrays
import Mel.Proofs.WriteBack
import Mel.Proofs.ShadowStacks
import Mel.Proofs.StringLiterals
import Mel.Proofs.ArrayTexts
import Mel.Proofs.LoopRounds
import Mel.Proofs.DollarRuns
import Mel.Proofs.ParserProgress
import Mel.Proofs.Parentheses
