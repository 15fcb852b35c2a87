import Emission.ElementType
import Emission.Operation

/-!
Why a request is refused. A failure has one of nine kinds, and within a kind it says what is wrong;
`Failure.message` has all the wording. Programs can state failures of their own, which carry their text. A
panic is of none of these kinds. It ends the whole program: nothing goes on after it.
-/
namespace Emission

inductive TypeFault
  | unknownTag (tag : Nat)
  | unstorable (type : ElementType)
  | noPointer (type : ElementType)
  | castTarget (type : ElementType)
  | stated (text : String)
deriving DecidableEq

inductive OperatorFault
  | unknownTag (tag : Nat)
  | undefinedFor (op : Arithmetic) (type : BaseType)
  | stated (text : String)
deriving DecidableEq

inductive ComparisonFault
  | unknownTag (tag : Nat)
  | stated (text : String)
deriving DecidableEq

inductive ArgumentFault
  | noLayout
  | noHandle
  | undefinedValue (type : ElementType)
  | unknownHandle (handle : Nat)
  | paddingRank (padding size : Nat)
  | paddedExtent
  | partRanks (size extent offset order : Nat)
  | notPermutation (order : List Nat)
  | dimensionOverflow (dimension offset size extent : Nat)
  | extentOverflow (extent : List Nat)
  | reorderRank (order rank : Nat)
  | coordinateCount (rank given : Nat)
  | offsetOverflow (coordinates : List Nat)
  | indexUnfit (index : Nat) (type : BaseType)
  | indexOverflow (index : Nat)
  | negativeIndex (index : Int)
  | elementOutside (index length : Nat)
  | offsetOutside (index length : Nat)
  | divisionByZero
  | voidStorage
  | undefinedOperands (op : Comparison)
  | operandTypes (op : Comparison) (lhs rhs : BaseType)
  | operandShapes (lhs rhs : List Nat)
  | castUnconstrained
  | scalarRank (rank : Nat)
  | vectorRank (rank : Nat)
  | vectorLayout
  | argumentCount (name : String) (expected given : Nat)
  | missingResult (name : String)
  | intrinsicCount (intrinsic : Intrinsic) (given : Nat)
  | reductionRank (intrinsic : Intrinsic) (rank : Nat)
  | reductionEmpty (intrinsic : Intrinsic)
  | pairRank (intrinsic : Intrinsic)
  | exponentRank
  | stated (text : String)
deriving DecidableEq

inductive StateFault
  | noActiveContext
  | stated (text : String)
deriving DecidableEq

inductive BackendFault
  | handlesExhausted
  | intrinsicResult (intrinsic : Intrinsic)
  | stated (text : String)
deriving DecidableEq

/-- A sum that is no word, or an allocation for which there is no room. -/
inductive Panic
  | sumOverflow
  | allocation (bytes : Nat)
deriving DecidableEq

inductive Failure
  | invalidValueType (fault : TypeFault)
  | invalidOperatorType (fault : OperatorFault)
  | invalidComparisonType (fault : ComparisonFault)
  | typeMismatch (expected found : ElementType)
  | invalidArgument (fault : ArgumentFault)
  | invalidSize (requested capacity : Nat)
  | illegalState (fault : StateFault)
  | invalidFunction (name : String)
  | backend (fault : BackendFault)
  | panic (panic : Panic)
deriving DecidableEq

/-- A list of numbers as messages show it. -/
def listText (ns : List Nat) : String :=
  "[" ++ ", ".intercalate (ns.map toString) ++ "]"

def TypeFault.message : TypeFault → String
  | unknownTag tag => s!"unknown value type tag {tag}"
  | unstorable type => "cannot hold `" ++ type.name ++ "` elements in host storage"
  | noPointer type => "no pointer type for " ++ type.name
  | castTarget type => "cannot cast to " ++ type.name
  | stated text => text

def OperatorFault.message : OperatorFault → String
  | unknownTag tag => s!"unknown operator tag {tag}"
  | undefinedFor op type => "`" ++ op.symbol ++ "` is not defined for " ++ type.name
  | stated text => text

def ComparisonFault.message : ComparisonFault → String
  | unknownTag tag => s!"unknown comparison tag {tag}"
  | stated text => text

def ArgumentFault.message : ArgumentFault → String
  | noLayout => "value has no layout"
  | noHandle => "value is not defined"
  | undefinedValue type => type.name ++ " value is not defined"
  | unknownHandle handle => s!"unknown handle {handle}"
  | paddingRank padding size => s!"padding has {padding} dimensions, size has {size}"
  | paddedExtent => "padded extent overflows usize"
  | partRanks size extent offset order =>
    s!"layout vectors disagree on rank: size {size}, extent {extent}, offset {offset}, order {order}"
  | notPermutation order => "dimension order " ++ listText order ++ " is not a permutation"
  | dimensionOverflow d offset size extent =>
    s!"dimension {d}: offset {offset} + size {size} exceeds extent {extent}"
  | extentOverflow extent => "layout extents " ++ listText extent ++ " overflow usize"
  | reorderRank order rank => s!"order has {order} dimensions, layout has {rank}"
  | coordinateCount rank given => s!"expected {rank} coordinates, got {given}"
  | offsetOverflow coordinates =>
    "offset of coordinates " ++ listText coordinates ++ " overflows usize"
  | indexUnfit index type => s!"index {index} does not fit in " ++ type.name
  | indexOverflow index => s!"index {index} exceeds int32"
  | negativeIndex index => s!"negative index {index}"
  | elementOutside index length => s!"element {index} is outside storage of {length} elements"
  | offsetOutside index length => s!"offset {index} is outside storage of {length} elements"
  | divisionByZero => "integer division by zero"
  | voidStorage => "cannot allocate void storage"
  | undefinedOperands op => "`" ++ op.symbol ++ "` requires defined operands"
  | operandTypes op lhs rhs =>
    "`" ++ op.symbol ++ "` operands differ in type: " ++ lhs.name ++ " and " ++ rhs.name
  | operandShapes lhs rhs => "operand shapes differ: " ++ listText lhs ++ " and " ++ listText rhs
  | castUnconstrained => "cannot cast an unconstrained value"
  | scalarRank rank => s!"scalar requires rank 0, got rank {rank}"
  | vectorRank rank => s!"vector requires rank 1, got rank {rank}"
  | vectorLayout => "vector requires a layout"
  | argumentCount name expected given => s!"`{name}` takes {expected} arguments, {given} given"
  | missingResult name => s!"`{name}` returned no value"
  | intrinsicCount intrinsic given =>
    "`" ++ intrinsic.name ++ s!"` called with {given} arguments"
  | reductionRank intrinsic rank =>
    "`" ++ intrinsic.name ++ s!"` reduces a vector, got rank {rank}"
  | reductionEmpty intrinsic => "`" ++ intrinsic.name ++ "` of an empty vector"
  | pairRank intrinsic => "`" ++ intrinsic.name ++ "` of two values requires scalars"
  | exponentRank => "`pow` exponent must be a scalar"
  | stated text => text

def StateFault.message : StateFault → String
  | noActiveContext => "no emitter context is active"
  | stated text => text

def BackendFault.message : BackendFault → String
  | handlesExhausted => "handle space exhausted"
  | intrinsicResult intrinsic => "`" ++ intrinsic.name ++ "` produced no result"
  | stated text => text

/-- The most bytes that can be asked for at once. -/
def allocationLimit : Nat := (1 <<< 63) - 1

def Panic.message : Panic → String
  | sumOverflow => "attempt to add with overflow"
  | allocation bytes =>
    if allocationLimit < bytes then "capacity overflow"
    else s!"memory allocation of {bytes} bytes failed"

namespace Failure

def message : Failure → String
  | invalidValueType fault => "invalid value type: " ++ fault.message
  | invalidOperatorType fault => "invalid operator type: " ++ fault.message
  | invalidComparisonType fault => "invalid comparison type: " ++ fault.message
  | typeMismatch expected found =>
    "type mismatch: expected `" ++ expected.name ++ "`, found `" ++ found.name ++ "`"
  | invalidArgument fault => "invalid argument: " ++ fault.message
  | invalidSize requested capacity =>
    s!"invalid size: requested {requested} elements, capacity is {capacity}"
  | illegalState fault => "illegal state: " ++ fault.message
  | invalidFunction name => s!"invalid function `{name}`"
  | backend fault => "backend error: " ++ fault.message
  | panic p => p.message

/-- The name of the kind alone. -/
def kind : Failure → String
  | invalidValueType _ => "InvalidValueType"
  | invalidOperatorType _ => "InvalidOperatorType"
  | invalidComparisonType _ => "InvalidComparisonType"
  | typeMismatch _ _ => "TypeMismatch"
  | invalidArgument _ => "InvalidArgument"
  | invalidSize _ _ => "InvalidSize"
  | illegalState _ => "IllegalState"
  | invalidFunction _ => "InvalidFunction"
  | backend _ => "Backend"
  | panic _ => "Panic"

def isPanic : Failure → Bool
  | panic _ => true
  | _ => false

/-- A mismatch of two base types. -/
abbrev baseMismatch (expected found : BaseType) : Failure :=
  typeMismatch (.plain expected) (.plain found)

end Failure

end Emission
