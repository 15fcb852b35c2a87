import Emission.Script.Session
import Emission.Store.Addressing
import Emission.Store.Call

/-!
Making values. The parts of a step are built in order, layouts before coordinates and a left operand before
a right one, and all of them before the operation is asked for.
-/
namespace Emission.Script

/-- Calls a declaration on a backend; a stand-in checks the call and does nothing. -/
def callOn (b : Backend) (eval : Body → List Value → Computation (Option Value)) (d : Declaration Body)
    (args : List Value) : Computation (Option Value) :=
  match b with
  | .direct i => d.call (ε := Stop) (onContext i) eval args
  | .muted _ _ => do
    liftM (d.checkCall args)
    return none

/-- Calls an intrinsic in the active context. -/
def callIntrinsic (f : Intrinsic) (args : List Value) : Computation Value := do
  match ← callOn (← current) (fun _ _ => return none) f.declaration args with
  | some v => return v
  | none => throw (.failed (.backend (.intrinsicResult f)))

def makeElementwise (method : Method) (a : Operand) : Computation Value :=
  match method with
  | .arithmetic op b => do onActive (.arithmetic op a.value (← readArgument b).value)
  | .compare op b => do onActive (.compare op a.value (← readArgument b).value)
  | .negate => onActive (.negate a.value)
  | .cast type => onActive (.cast a.value type)

/-- A maximum or minimum is a scalar; the other functions keep the rank of their first argument. -/
def refineMath (f : Intrinsic) (a : Operand) (v : Value) : Except Failure Value :=
  match f with
  | .maxnum | .minnum => return (← Scalar.ofValue v).value
  | _ => return (← a.refine v).value

def Maker.run : Maker → Computation Value
  | value type layout? handle? => do
    match layout? with
    | some layout => return ⟨type, some (← layout.build), handle?⟩
    | none => return ⟨type, none, handle?⟩
  | copyOf r => readRegister r
  | scalarOf r => return (← readScalar r).value
  | withLayout r layout => do
    let l ← layout.build
    return (← readRegister r).withLayout l
  | withHandle r handle => return (← readRegister r).withHandle handle
  | released r => return (← readRegister r).released
  | allocate type layout => do
    let l ← layout.build
    onActive (.allocate type l)
  | allocateRow type length => onActive (.allocateRow type length)
  | allocateNamed scope name type layout => do
    let l ← layout.build
    onActive (.allocateNamed scope name type l)
  | allocateGuarded guard type length => do
    match (← get).activation.guarded? guard with
    | some b => onContext b.context (.allocateRow type length)
    | none => throw (.failed (.illegalState .noActiveContext))
  | store constant => onActive (.storeConstant constant)
  | scalarConstant constant => do
    let v ← onActive (.storeConstant constant)
    return (← Scalar.ofValue (v.withLayout .scalar)).value
  | vectorConstant constant => do
    return (← Vector.ofValue (← onActive (.storeConstant constant))).value
  | offset r index => do
    let i ← readScalar index
    onActive (.offset (← readRegister r) i)
  | offsetAt r coordinates => do
    let cs ← readScalars coordinates
    onActive (.offsetAt (← readRegister r) cs)
  | calculateOffset layout coordinates => do
    let l ← layout.build
    let cs ← readScalars coordinates
    return (← onActive (.calculateOffset l cs)).value
  | element vector index => do
    let v ← readVector vector
    let i ← readScalar index
    return (← onActive (.elementAt v i)).value
  | negate r => do onActive (.negate (← readRegister r))
  | arithmetic op a b => do onActive (.arithmetic op (← readRegister a) (← readRegister b))
  | compare op a b => do onActive (.compare op (← readRegister a) (← readRegister b))
  | cast r type => do onActive (.cast (← readRegister r) type)
  | elementwise method a => do
    let a ← readArgument a
    return (← a.refine (← makeElementwise method a)).value
  | math f a b? => do
    let a ← readArgument a
    match b? with
    | none => refineMath f a (← callIntrinsic f [a.value])
    | some r => do
      let b ← readScalar r
      refineMath f a (← callIntrinsic f [a.value, b.value])

end Emission.Script
