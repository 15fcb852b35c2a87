import Emission.Lowering.Operator

/-!
Low-level comparisons and their predicates. Equality and inequality have one form for all integers, and the
four order comparisons have a signed and an unsigned one. The forms on doubles are ordered, except that
inequality holds when a side is not a number. Each comparison has a predicate on integers or one on doubles.
-/
namespace Emission

inductive IntPredicate
  | eq | ne | ugt | uge | ult | ule | sgt | sge | slt | sle
deriving DecidableEq

inductive FloatPredicate
  | oeq | ogt | oge | olt | ole | une
deriving DecidableEq

def IntPredicate.identifier : IntPredicate → String
  | eq => "EQ"
  | ne => "NE"
  | ugt => "UGT"
  | uge => "UGE"
  | ult => "ULT"
  | ule => "ULE"
  | sgt => "SGT"
  | sge => "SGE"
  | slt => "SLT"
  | sle => "SLE"

def FloatPredicate.identifier : FloatPredicate → String
  | oeq => "OEQ"
  | ogt => "OGT"
  | oge => "OGE"
  | olt => "OLT"
  | ole => "OLE"
  | une => "UNE"

inductive Relation
  | equal | notEqual | lessSigned | lessOrEqualSigned | greaterSigned | greaterOrEqualSigned
  | equalFloat | notEqualFloat | lessFloat | lessOrEqualFloat | greaterFloat | greaterOrEqualFloat
  | lessUnsigned | lessOrEqualUnsigned | greaterUnsigned | greaterOrEqualUnsigned
deriving DecidableEq

namespace Relation

def all : List Relation :=
  [equal, notEqual, lessSigned, lessOrEqualSigned, greaterSigned, greaterOrEqualSigned,
    equalFloat, notEqualFloat, lessFloat, lessOrEqualFloat, greaterFloat, greaterOrEqualFloat,
    lessUnsigned, lessOrEqualUnsigned, greaterUnsigned, greaterOrEqualUnsigned]

def ofTag (tag : Nat) : Except Failure Relation :=
  match all[tag]? with
  | some r => .ok r
  | none => .error (.invalidComparisonType (.unknownTag tag))

def intPredicate? : Relation → Option IntPredicate
  | equal => some .eq
  | notEqual => some .ne
  | lessSigned => some .slt
  | lessOrEqualSigned => some .sle
  | greaterSigned => some .sgt
  | greaterOrEqualSigned => some .sge
  | lessUnsigned => some .ult
  | lessOrEqualUnsigned => some .ule
  | greaterUnsigned => some .ugt
  | greaterOrEqualUnsigned => some .uge
  | equalFloat | notEqualFloat | lessFloat | lessOrEqualFloat | greaterFloat
  | greaterOrEqualFloat => none

def floatPredicate? : Relation → Option FloatPredicate
  | equalFloat => some .oeq
  | notEqualFloat => some .une
  | lessFloat => some .olt
  | lessOrEqualFloat => some .ole
  | greaterFloat => some .ogt
  | greaterOrEqualFloat => some .oge
  | equal | notEqual | lessSigned | lessOrEqualSigned | greaterSigned | greaterOrEqualSigned
  | lessUnsigned | lessOrEqualUnsigned | greaterUnsigned | greaterOrEqualUnsigned => none

def isFloat (r : Relation) : Bool := r.floatPredicate?.isSome

def ofClass : Comparison → OperandClass → Relation
  | .equality, .signed | .equality, .unsigned => equal
  | .inequality, .signed | .inequality, .unsigned => notEqual
  | .lessThan, .signed => lessSigned
  | .lessThanOrEqual, .signed => lessOrEqualSigned
  | .greaterThan, .signed => greaterSigned
  | .greaterThanOrEqual, .signed => greaterOrEqualSigned
  | .lessThan, .unsigned => lessUnsigned
  | .lessThanOrEqual, .unsigned => lessOrEqualUnsigned
  | .greaterThan, .unsigned => greaterUnsigned
  | .greaterThanOrEqual, .unsigned => greaterOrEqualUnsigned
  | .equality, .float => equalFloat
  | .inequality, .float => notEqualFloat
  | .lessThan, .float => lessFloat
  | .lessThanOrEqual, .float => lessOrEqualFloat
  | .greaterThan, .float => greaterFloat
  | .greaterThanOrEqual, .float => greaterOrEqualFloat

def ofOperation (op : Comparison) (t : ElementType) : Relation :=
  ofClass op (.ofType t)

def identifier : Relation → String
  | equal => "Eq"
  | notEqual => "Neq"
  | lessSigned => "Lt"
  | lessOrEqualSigned => "Lte"
  | greaterSigned => "Gt"
  | greaterOrEqualSigned => "Gte"
  | equalFloat => "EqF"
  | notEqualFloat => "NeqF"
  | lessFloat => "LtF"
  | lessOrEqualFloat => "LteF"
  | greaterFloat => "GtF"
  | greaterOrEqualFloat => "GteF"
  | lessUnsigned => "LtU"
  | lessOrEqualUnsigned => "LteU"
  | greaterUnsigned => "GtU"
  | greaterOrEqualUnsigned => "GteU"

end Relation

end Emission
