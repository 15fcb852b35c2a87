import Emission.Layout.Build

/-!
Values and their refinements. A value is a view: it has a type, and it may have a layout and the handle of
the storage that it shows. A scalar is a value of rank 0 and a vector is one of rank 1.
-/
namespace Emission

structure Handle where
  index : Nat
deriving DecidableEq

structure Value where
  type : ElementType
  layout? : Option Layout
  handle? : Option Handle
deriving DecidableEq

namespace Value

def ofType (type : ElementType) : Value := ⟨type, none, none⟩

def base (v : Value) : BaseType := v.type.base

def isConstrained (v : Value) : Bool := v.layout?.isSome

def isDefined (v : Value) : Bool := v.handle?.isSome

def rank? (v : Value) : Option Nat := v.layout?.map (·.rank)

def layout (v : Value) : Except Failure Layout :=
  match v.layout? with
  | some l => .ok l
  | none => .error (.invalidArgument .noLayout)

def handle (v : Value) : Except Failure Handle :=
  match v.handle? with
  | some h => .ok h
  | none => .error (.invalidArgument .noHandle)

def ensureDefined (v : Value) : Except Failure Unit :=
  if v.isDefined then .ok () else .error (.invalidArgument (.undefinedValue v.type))

def withLayout (v : Value) (l : Layout) : Value := { v with layout? := some l }

def withHandle (v : Value) (h : Handle) : Value := { v with handle? := some h }

/-- The value without its storage. -/
def released (v : Value) : Value := { v with handle? := none }

end Value

structure Scalar where
  value : Value
  rank_eq : value.rank? = some 0

namespace Scalar

def base (s : Scalar) : BaseType := s.value.base

/-- A value without a layout becomes a single element. -/
def ofValue (v : Value) : Except Failure Scalar :=
  match h : v.rank? with
  | none => .ok ⟨v.withLayout .scalar, rfl⟩
  | some 0 => .ok ⟨v, h⟩
  | some (n + 1) => .error (.invalidArgument (.scalarRank (n + 1)))

end Scalar

structure Vector where
  value : Value
  rank_eq : value.rank? = some 1

namespace Vector

def base (v : Vector) : BaseType := v.value.base

def ofValue (v : Value) : Except Failure Vector :=
  match h : v.rank? with
  | none => .error (.invalidArgument .vectorLayout)
  | some n =>
    if hn : n = 1 then .ok ⟨v, by rw [h, hn]⟩ else .error (.invalidArgument (.vectorRank n))

def length (v : Vector) : Nat :=
  match v.value.layout? with
  | some l => l.numElements
  | none => 0

def isEmpty (v : Vector) : Bool := v.length == 0

end Vector

/-- A value that operations on elements take and give back: the result has the rank of its operand. -/
inductive Operand
  | scalar (s : Scalar)
  | vector (v : Vector)

namespace Operand

def value : Operand → Value
  | scalar s => s.value
  | vector v => v.value

/-- A value refined as the operand is. -/
def refine : Operand → Value → Except Failure Operand
  | scalar _, v => return scalar (← Scalar.ofValue v)
  | vector _, v => return vector (← Vector.ofValue v)

end Operand

end Emission
