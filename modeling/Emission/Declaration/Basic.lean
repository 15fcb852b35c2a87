import Emission.Value

/-!
Function declarations: a name, a result type, parameters, and perhaps a definition or an intrinsic that the
name stands for. What a definition consists of is left open. The intrinsics have nominal declarations over
doubles.
-/
namespace Emission

structure Parameter where
  name : String
  type : ElementType
  layout : Layout
deriving DecidableEq

namespace Parameter

/-- A parameter of rank 0 is passed by value, any other by reference. -/
def isScalar (p : Parameter) : Bool := p.layout.isScalar

def ofScalar (name : String) (type : ElementType) : Parameter := ⟨name, type, .scalar⟩

end Parameter

structure Declaration (Body : Type) where
  name : String
  result : ElementType
  parameters : List Parameter
  definition? : Option Body
  intrinsic? : Option Intrinsic

namespace Declaration

variable {Body : Type}

/-- A declaration without parameters, result or definition. -/
def ofName (name : String) : Declaration Body := ⟨name, .plain .void, [], none, none⟩

def returns (d : Declaration Body) (type : ElementType) : Declaration Body := { d with result := type }

def withParameter (d : Declaration Body) (p : Parameter) : Declaration Body :=
  { d with parameters := d.parameters ++ [p] }

def define (d : Declaration Body) (body : Body) : Declaration Body := { d with definition? := some body }

def returnsVoid (d : Declaration Body) : Bool := d.result == .plain .void

def isDefined (d : Declaration Body) : Bool := d.definition?.isSome

def isIntrinsic (d : Declaration Body) : Bool := d.intrinsic?.isSome

end Declaration

namespace Intrinsic

def parameterNames : Intrinsic → List String
  | maxnum | minnum => ["a", "b"]
  | pow => ["base", "exponent"]
  | abs | cos | exp | log | sin | sqrt | tanh => ["x"]

/-- The nominal declaration; calls are checked by their own rules and not against its parameters. -/
def declaration {Body : Type} (f : Intrinsic) : Declaration Body where
  name := f.name
  result := .plain .double
  parameters := f.parameterNames.map (Parameter.ofScalar · (.plain .double))
  definition? := none
  intrinsic? := some f

end Intrinsic

end Emission
