import Emission.Datum.Basic

/-!
Arithmetic and comparison of elements. Two doubles follow IEEE arithmetic. All other pairs are computed on
64-bit words that wrap around, and the result becomes an element of the left operand's kind. An integer
division truncates, and a zero divisor is the one failure.
-/
namespace Emission

def Arithmetic.onDoubles : Arithmetic → Float → Float → Float
  | add, x, y => x + y
  | subtract, x, y => x - y
  | multiply, x, y => x * y
  | divide, x, y => x / y
  | modulus, x, y => Double.remainder x y

def Arithmetic.onWords : Arithmetic → BitVec 64 → BitVec 64 → Except Failure (BitVec 64)
  | add, x, y => .ok (x + y)
  | subtract, x, y => .ok (x - y)
  | multiply, x, y => .ok (x * y)
  | divide, x, y => if y = 0 then .error (.invalidArgument .divisionByZero) else .ok (x.sdiv y)
  | modulus, x, y => if y = 0 then .error (.invalidArgument .divisionByZero) else .ok (x.srem y)

namespace Datum

def arithmetic (op : Arithmetic) : Datum → Datum → Except Failure Datum
  | double x, double y => .ok (double (op.onDoubles x y))
  | a, b => return ofWord (← op.onWords a.toWord b.toWord) a.kind

def order? : Datum → Datum → Option Ordering
  | double x, double y => Double.order? x y
  | a, b => some (compare a.toWord.toInt b.toWord.toInt)

def compare (op : Comparison) (a b : Datum) : Bool :=
  op.holds (order? a b)

def max : Datum → Datum → Datum
  | double x, double y => double (Double.larger x y)
  | a, b => ofWord (if a.toWord.toInt < b.toWord.toInt then b.toWord else a.toWord) a.kind

def min : Datum → Datum → Datum
  | double x, double y => double (Double.smaller x y)
  | a, b => ofWord (if b.toWord.toInt < a.toWord.toInt then b.toWord else a.toWord) a.kind

/-- Powers are always doubles. -/
def pow (a exponent : Datum) : Datum :=
  double (a.toDouble.pow exponent.toDouble)

end Datum

/-- What a function of one argument does to a double; the others leave it as it is. -/
def Intrinsic.onDouble : Intrinsic → Float → Float
  | abs, x => x.abs
  | cos, x => x.cos
  | exp, x => x.exp
  | log, x => x.log
  | sin, x => x.sin
  | sqrt, x => x.sqrt
  | tanh, x => x.tanh
  | maxnum, x | minnum, x | pow, x => x

namespace Datum

/-- A function of one argument; on all but doubles it is the absolute value, which wraps around. -/
def applyUnary (f : Intrinsic) : Datum → Datum
  | double x => double (f.onDouble x)
  | d => ofWord d.toWord.abs d.kind

end Datum

end Emission
