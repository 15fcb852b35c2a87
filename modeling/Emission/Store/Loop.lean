import Emission.Layout.Odometer
import Emission.Store.Basic

/-!
Loops over an index space. The body runs once for each coordinate vector of a layout, in logical order, and
gets new scalars that hold it. The first failure ends the loop. The body may be a computation of any kind
into which actions lift.
-/
namespace Emission

variable {Body : Type}

namespace Action

/-- A new scalar that holds a coordinate. -/
def indexScalar (c : Nat) : Action Body Scalar := do
  if c < IntKind.int32.bound then
    let v ← newBuffer (Data.ofList (.integer .int32) [.integer .int32 (BitVec.ofNat 32 c)]) .scalar
    Scalar.ofValue v
  else
    throw (.invalidArgument (.indexOverflow c))

def indexScalars : List Nat → Action Body (List Scalar)
  | [] => return []
  | c :: coordinates => do
    let a ← indexScalar c
    return a :: (← indexScalars coordinates)

end Action

@[specialize] def forEach {m : Type → Type} [Monad m] (lift : ∀ {α : Type}, Action Body α → m α)
    (l : Layout) (body : List Scalar → m Unit) : m Unit :=
  if l.numElements = 0 then pure ()
  else l.foldCoordinatesM () fun _ c => do
    body (← lift (Action.indexScalars c))

end Emission
