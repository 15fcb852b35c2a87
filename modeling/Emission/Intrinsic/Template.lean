import Emission.Value

/-!
The rules of intrinsic calls. A call that obeys them has a template: the type and the layout that its result
will have, without storage. The first argument decides the element type. A maximum or minimum of one
argument reduces a vector; of two it takes scalars. All other functions keep the logical shape of their
first argument, and the exponent of a power is a scalar.
-/
namespace Emission.Intrinsic

def takes (f : Intrinsic) (given : Nat) : Bool :=
  match f with
  | maxnum | minnum => given == 1 || given == 2
  | pow => given == 2
  | abs | cos | exp | log | sin | sqrt | tanh => given == 1

def acceptsBase (f : Intrinsic) (b : BaseType) : Bool :=
  b.isFloatingPoint || (f.acceptsIntegral && b.isIntegral)

/-- The layout of the result of a call with a first argument and perhaps a second. -/
def resultLayout (f : Intrinsic) (first : Value) (second? : Option Value) : Except Failure Layout := do
  let shape ← first.layout
  match f, second? with
  | maxnum, none | minnum, none =>
    if shape.rank ≠ 1 then throw (.invalidArgument (.reductionRank f shape.rank))
    if shape.numElements = 0 then throw (.invalidArgument (.reductionEmpty f))
    return .scalar
  | maxnum, some second | minnum, some second =>
    if !shape.isScalar then throw (.invalidArgument (.pairRank f))
    if !(← second.layout).isScalar then throw (.invalidArgument (.pairRank f))
    return .scalar
  | pow, some second =>
    if !(← second.layout).isScalar then throw (.invalidArgument .exponentRank)
    Layout.ofSizes shape.logicalSize
  | _, _ => Layout.ofSizes shape.logicalSize

def checkSecond (b : BaseType) (second? : Option Value) : Except Failure Unit :=
  match second? with
  | some second => if second.base = b then .ok () else .error (.baseMismatch b second.base)
  | none => .ok ()

/-- Checks a call and gives the template of its result. -/
def template (f : Intrinsic) (args : List Value) : Except Failure Value := do
  if !f.takes args.length then throw (.invalidArgument (.intrinsicCount f args.length))
  args.forM Value.ensureDefined
  match args with
  | [] => throw (.invalidArgument (.intrinsicCount f 0))
  | first :: rest =>
    if !f.acceptsBase first.base then throw (.baseMismatch .double first.base)
    checkSecond first.base rest.head?
    let layout ← f.resultLayout first rest.head?
    return ⟨.plain first.base, some layout, none⟩

end Emission.Intrinsic
