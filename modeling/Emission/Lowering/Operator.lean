import Emission.Failure

/-!
Low-level operators. Operands take part in arithmetic as signed or unsigned integers or as doubles, and the
operator of an operation depends on this class: division and remainder have a form for each, and addition,
subtraction and multiplication share one form for all integers. Operators are numbered.
-/
namespace Emission

inductive OperandClass
  | signed | unsigned | float
deriving DecidableEq

namespace OperandClass

/-- Booleans and bytes are unsigned. Void has no arithmetic and counts as signed. -/
def ofBase : BaseType → OperandClass
  | .void => signed
  | .cell .boolean => unsigned
  | .cell (.integer k) => if k.isSigned then signed else unsigned
  | .cell .double => float

def ofType (t : ElementType) : OperandClass := ofBase t.base

def identifier : OperandClass → String
  | signed => "Signed"
  | unsigned => "Unsigned"
  | float => "Float"

end OperandClass

inductive Operator
  | add | subtract | multiply | divideSigned | remainderSigned
  | addFloat | subtractFloat | multiplyFloat | divideFloat | remainderFloat
  | divideUnsigned | remainderUnsigned
deriving DecidableEq

namespace Operator

def all : List Operator :=
  [add, subtract, multiply, divideSigned, remainderSigned, addFloat, subtractFloat, multiplyFloat,
    divideFloat, remainderFloat, divideUnsigned, remainderUnsigned]

def ofTag (tag : Nat) : Except Failure Operator :=
  match all[tag]? with
  | some o => .ok o
  | none => .error (.invalidOperatorType (.unknownTag tag))

def isFloat : Operator → Bool
  | addFloat | subtractFloat | multiplyFloat | divideFloat | remainderFloat => true
  | add | subtract | multiply | divideSigned | remainderSigned | divideUnsigned
  | remainderUnsigned => false

def ofClass : Arithmetic → OperandClass → Operator
  | .add, .signed | .add, .unsigned => add
  | .subtract, .signed | .subtract, .unsigned => subtract
  | .multiply, .signed | .multiply, .unsigned => multiply
  | .divide, .signed => divideSigned
  | .modulus, .signed => remainderSigned
  | .divide, .unsigned => divideUnsigned
  | .modulus, .unsigned => remainderUnsigned
  | .add, .float => addFloat
  | .subtract, .float => subtractFloat
  | .multiply, .float => multiplyFloat
  | .divide, .float => divideFloat
  | .modulus, .float => remainderFloat

def ofOperation (op : Arithmetic) (t : ElementType) : Operator :=
  ofClass op (.ofType t)

def identifier : Operator → String
  | add => "Add"
  | subtract => "Subtract"
  | multiply => "Multiply"
  | divideSigned => "DivideS"
  | remainderSigned => "ModS"
  | addFloat => "AddF"
  | subtractFloat => "SubtractF"
  | multiplyFloat => "MultiplyF"
  | divideFloat => "DivideF"
  | remainderFloat => "ModF"
  | divideUnsigned => "DivideU"
  | remainderUnsigned => "ModU"

end Operator

end Emission
