import Emission.Store.Elementwise
import Emission.Store.View

/-!
Addressing by computed coordinates. The offset of an element is computed by stored operations in the integer
type of the coordinates, so it wraps around as that type does. Offsets of zero and strides of one are left
out, and other offsets and strides have to fit in the type.
-/
namespace Emission.Action

variable {Body : Type}

/-- A new scalar that holds a number of the layout. -/
def indexConstant (k : IntKind) (n : Nat) : Action Body Scalar := do
  if n < k.bound then
    let v ← storeConstant (.single (.integer k) (.integer k (BitVec.ofNat k.width n)))
    Scalar.ofValue (v.withLayout .scalar)
  else
    throw (.invalidArgument (.indexUnfit n (.cell (.integer k))))

def scalarArithmetic (op : Arithmetic) (a b : Scalar) : Action Body Scalar := do
  Scalar.ofValue (← arithmetic op a.value b.value)

/-- The number is applied to the scalar, unless it changes nothing. -/
def applyNumber (k : IntKind) (op : Arithmetic) (neutral n : Nat) (a : Scalar) : Action Body Scalar := do
  if n = neutral then return a
  scalarArithmetic op a (← indexConstant k n)

/-- What one dimension adds to the offset. -/
def indexTerm (k : IntKind) (d : Dimension) (a : Scalar) : Action Body Scalar := do
  applyNumber k .multiply 1 d.stride (← applyNumber k .add 0 d.offset a)

def addTerm (total? : Option Scalar) (term : Scalar) : Action Body Scalar :=
  match total? with
  | some total => scalarArithmetic .add total term
  | none => return term

def sumTerms (k : IntKind) (coordinates : List Scalar) :
    List Dimension → Option Scalar → Action Body (Option Scalar)
  | [], total? => return total?
  | d :: dims, total? =>
    match coordinates[d.axis]? with
    | some a => do
      let term ← indexTerm k d a
      sumTerms k coordinates dims (some (← addTerm total? term))
    | none => throw (.invalidArgument (.coordinateCount (d.axis + 1) coordinates.length))

/-- The type in which an offset is computed: that of the first coordinate. -/
def indexKind (coordinates : List Scalar) : Except Failure IntKind :=
  match coordinates with
  | [] => .ok .int32
  | a :: _ =>
    match a.base with
    | .cell (.integer k) => .ok k
    | b => .error (.baseMismatch .int32 b)

def calculateOffset (l : Layout) (coordinates : List Scalar) : Action Body Scalar := do
  l.checkRank coordinates.length
  let k ← indexKind coordinates
  match ← sumTerms k coordinates l.dims none with
  | some total => return total
  | none => indexConstant k 0

/-- A view of the element at logical coordinates. -/
def offsetAt (v : Value) (coordinates : List Scalar) : Action Body Value := do
  v.ensureDefined
  offset v (← calculateOffset (← v.layout) coordinates)

/-- A view of one element of a vector. -/
def elementAt (v : Vector) (i : Scalar) : Action Body Scalar := do
  Scalar.ofValue (← offsetAt v.value [i])

end Emission.Action
