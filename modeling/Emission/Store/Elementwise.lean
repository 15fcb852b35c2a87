import Emission.Datum.Arithmetic
import Emission.Layout.Odometer
import Emission.Store.Allocate

/-!
Operations on all elements of values. The result is a new value with the left operand's logical shape in a
packed layout, filled in logical order, and a right operand of rank 0 is repeated. The rules are checked
before anything is stored.
-/
namespace Emission

variable {Body : Type}

/-- The element of an operand at some coordinates; a single element stands at all of them. -/
def Store.broadcast (s : Store Body) (v : Value) (coordinates : List Nat) : Except Failure Datum := do
  if (← v.layout).isScalar then s.fetch v [] else s.fetch v coordinates

/-- The operands agree in logical shape, or the right one is a single element. -/
def checkShapes (lhs rhs : Value) : Except Failure Unit := do
  let l ← lhs.layout
  let r ← rhs.layout
  if r.isScalar ∨ l.logicalSize = r.logicalSize then return
  throw (.invalidArgument (.operandShapes l.logicalSize r.logicalSize))

namespace Action

/-- A new value in the shape of a layout, each element computed from the state at its turn. -/
def tabulate (type : ElementType) (shape : Layout) (f : Store Body → List Nat → Except Failure Datum) :
    Action Body Value := do
  let result ← newStorage type (← Layout.ofSizes shape.logicalSize)
  shape.foldCoordinatesM () fun _ c => do
    write result c (← reading (f · c))
  return result

def negate (v : Value) : Action Body Value := do
  v.ensureDefined
  let l ← v.layout
  if v.base ≠ .boolean then throw (.baseMismatch .boolean v.base)
  tabulate (.plain .boolean) l fun s c => return .boolean !(← s.fetch v c).toBool

def arithmetic (op : Arithmetic) (lhs rhs : Value) : Action Body Value := do
  lhs.ensureDefined
  rhs.ensureDefined
  if lhs.base ≠ rhs.base then throw (.baseMismatch lhs.base rhs.base)
  if !(lhs.base.isIntegral || lhs.base.isFloatingPoint) then
    throw (.invalidOperatorType (.undefinedFor op lhs.base))
  checkShapes lhs rhs
  tabulate (.plain lhs.base) (← lhs.layout) fun s c => do
    let a ← s.broadcast lhs c
    a.arithmetic op (← s.broadcast rhs c)

def compare (op : Comparison) (lhs rhs : Value) : Action Body Value := do
  if !lhs.isDefined || !rhs.isDefined then throw (.invalidArgument (.undefinedOperands op))
  if lhs.base ≠ rhs.base then throw (.invalidArgument (.operandTypes op lhs.base rhs.base))
  checkShapes lhs rhs
  tabulate (.plain .boolean) (← lhs.layout) fun s c => do
    let a ← s.broadcast lhs c
    return .boolean (a.compare op (← s.broadcast rhs c))

def cast (v : Value) (type : ElementType) : Action Body Value := do
  if !v.isConstrained then throw (.invalidArgument .castUnconstrained)
  v.ensureDefined
  match type with
  | .plain (.cell k) =>
    tabulate type (← v.layout) fun s c => return (← s.fetch v c).convert k
  | _ => throw (.invalidValueType (.castTarget type))

end Action

end Emission
