import BoundedTemporal.Expr.Reading
import BoundedTemporal.Unrolling.Sweep
import BoundedTemporal.Unrolling.Summary
import BoundedTemporal.Main
import BoundedTemporal.Proofs.Formula.Truncation
import BoundedTemporal.Proofs.Formula.Cone
import BoundedTemporal.Proofs.Unrolling.Stratified
import BoundedTemporal.Proofs.Unrolling.Totality
import BoundedTemporal.Proofs.Unrolling.Reversal
import BoundedTemporal.Proofs.Unrolling.HorizonPrefix
import BoundedTemporal.Proofs.Arena.Records
import BoundedTemporal.Proofs.Encoding.Spelling
import BoundedTemporal.Proofs.Unrolling.Spelling
import BoundedTemporal.Proofs.Unrolling.Shared
import BoundedTemporal.Proofs.Formula.Legibility
import BoundedTemporal.Proofs.Unrolling.Legibility
import BoundedTemporal.Proofs.Unrolling.Exhaustive
import BoundedTemporal.Proofs.Trace.Numbering
import BoundedTemporal.Proofs.Encoding.Size
import BoundedTemporal.Proofs.Unrolling.Size
import BoundedTemporal.Proofs.Expr.Legibility
import BoundedTemporal.Proofs.Unrolling.Stability
import BoundedTemporal.Proofs.Encoding.Shape
import BoundedTemporal.Proofs.Unrolling.Shape
import BoundedTemporal.Proofs.Formula.Primitive
import BoundedTemporal.Proofs.Unrolling.Primitive
import BoundedTemporal.Proofs.Formula.Monotone
import BoundedTemporal.Proofs.Formula.Unfolding
import BoundedTemporal.Proofs.Formula.Nested
import BoundedTemporal.Proofs.Time.Exact
import BoundedTemporal.Proofs.Arena.BottomUp
import BoundedTemporal.Proofs.Arena.InPlace
import BoundedTemporal.Proofs.Drawing
import BoundedTemporal.Proofs.Expr.Reading
import BoundedTemporal.Proofs.Arena.Height
import BoundedTemporal.Proofs.Trace.Changes
