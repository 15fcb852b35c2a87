/-!
The operations on elements: arithmetic, comparison, and the math functions. Each has the symbol or the
name under which messages show it.
-/
namespace Emission

inductive Arithmetic
  | add | subtract | multiply | divide | modulus
deriving DecidableEq

inductive Comparison
  | equality | inequality | lessThan | lessThanOrEqual | greaterThan | greaterThanOrEqual
deriving DecidableEq

inductive Intrinsic
  | abs | cos | exp | log | maxnum | minnum | pow | sin | sqrt | tanh
deriving DecidableEq

def Arithmetic.symbol : Arithmetic → String
  | add => "+"
  | subtract => "-"
  | multiply => "*"
  | divide => "/"
  | modulus => "%"

namespace Comparison

def symbol : Comparison → String
  | equality => "=="
  | inequality => "!="
  | lessThan => "<"
  | lessThanOrEqual => "<="
  | greaterThan => ">"
  | greaterThanOrEqual => ">="

/-- Whether the comparison holds of operands in the given order; `none` is an unordered pair, of which
only inequality holds. -/
def holds : Comparison → Option Ordering → Bool
  | c, none => c = inequality
  | equality, some o => o.isEq
  | inequality, some o => o.isNe
  | lessThan, some o => o.isLT
  | lessThanOrEqual, some o => o.isLE
  | greaterThan, some o => o.isGT
  | greaterThanOrEqual, some o => o.isGE

end Comparison

/-- The sign of logical negation, the one operation on a single boolean. -/
def negationSymbol : String := "!"

namespace Intrinsic

def all : List Intrinsic :=
  [abs, cos, exp, log, maxnum, minnum, pow, sin, sqrt, tanh]

def name : Intrinsic → String
  | abs => "abs"
  | cos => "cos"
  | exp => "exp"
  | log => "log"
  | maxnum => "maxnum"
  | minnum => "minnum"
  | pow => "pow"
  | sin => "sin"
  | sqrt => "sqrt"
  | tanh => "tanh"

def identifier : Intrinsic → String
  | abs => "Abs"
  | cos => "Cos"
  | exp => "Exp"
  | log => "Log"
  | maxnum => "MaxNum"
  | minnum => "MinNum"
  | pow => "Pow"
  | sin => "Sin"
  | sqrt => "Sqrt"
  | tanh => "Tanh"

/-- Takes one argument and applies to each of its elements. -/
def isUnary : Intrinsic → Bool
  | maxnum | minnum | pow => false
  | abs | cos | exp | log | sin | sqrt | tanh => true

/-- Takes integers as well as doubles. -/
def acceptsIntegral : Intrinsic → Bool
  | abs | maxnum | minnum => true
  | cos | exp | log | pow | sin | sqrt | tanh => false

def ofName? (name : String) : Option Intrinsic :=
  all.find? (·.name == name)

end Intrinsic

end Emission
