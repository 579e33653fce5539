import Sigil.Main
import Sigil.Session
import Sigil.Proofs.Environment.Stack
import Sigil.Proofs.Evaluation.LoopControl
import Sigil.Proofs.Evaluation.Scoping
import Sigil.Proofs.Grammar.StatementUnique
import Sigil.Proofs.Script.Pieces
import Sigil.Proofs.Grammar.CleanPrefix
import Sigil.Proofs.Grammar.PanicMode
import Sigil.Proofs.Token.Rendering
import Sigil.Proofs.Script.Places
import Sigil.Proofs.Tree.Nodes
import Sigil.Proofs.Evaluation.Framing
import Sigil.Proofs.Evaluation.Footprint
import Sigil.Proofs.Evaluation.Simulation
import Sigil.Proofs.Evaluation.Locality
import Sigil.Proofs.Evaluation.Padding
import Sigil.Proofs.Evaluation.ForLoop
import Sigil.Proofs.Syntax.WellFormed
import Sigil.Proofs.Evaluation.Update
import Sigil.Proofs.Script.Diagnostics
import Sigil.Proofs.Token.SigilName
import Sigil.Proofs.Evaluation.Interpolation
import Sigil.Proofs.Token.Quotation
import Sigil.Proofs.Script.Printing
import Sigil.Proofs.Token.LongestMatch
import Sigil.Proofs.Syntax.Progress
import Sigil.Proofs.Script.SourceOrder
import Sigil.Proofs.Script.Truncation
import Sigil.Proofs.Decimal.Whole
import Sigil.Proofs.Token.WholeNumeral
import Sigil.Proofs.Text.Rescan
import Sigil.Proofs.Evaluation.Increment
import Sigil.Proofs.Text.Protection
import Sigil.Proofs.Decimal.Order
import Sigil.Proofs.Value.Comparison
import Sigil.Proofs.Environment.Walk
