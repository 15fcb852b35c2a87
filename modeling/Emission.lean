import Emission.Lowering.Settings
import Emission.Proofs.Conversion
import Emission.Proofs.Extremes
import Emission.Proofs.Layout.Acceptance
import Emission.Proofs.Layout.Enumeration
import Emission.Proofs.Lowering.Operators
import Emission.Proofs.Lowering.Predicates
import Emission.Proofs.Saturation
import Emission.Proofs.Store.Access
import Emission.Proofs.Store.Arguments
import Emission.Proofs.Store.Branches
import Emission.Proofs.Store.CallStack
import Emission.Proofs.Store.Casts
import Emission.Proofs.Store.Constants
import Emission.Proofs.Store.Loops
import Emission.Proofs.Store.NamedStorage
import Emission.Proofs.Store.OffsetArithmetic
import Emission.Proofs.Store.Rejection
import Emission.Proofs.Store.Reordering
import Emission.Proofs.Store.Selection
import Emission.Proofs.Store.Shaping
import Emission.Script.Run
