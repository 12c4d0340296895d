import Comptime.Proofs.Expr.Cover
import Comptime.Proofs.Folding.References
import Comptime.Proofs.Folding.Stops
import Comptime.Proofs.Inlining
import Comptime.Proofs.Literal.Denomination
import Comptime.Proofs.Literal.Hexadecimal
import Comptime.Proofs.Operator.Bitwise
import Comptime.Proofs.Operator.Monotone
import Comptime.Proofs.Operator.Symmetry
import Comptime.Proofs.Operator.Vanishing
import Comptime.Proofs.Refinement
import Comptime.Proofs.Rendering
import Comptime.Proofs.Report.Complaint
import Comptime.Proofs.Report.Limit
