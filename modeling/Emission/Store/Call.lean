import Emission.Store.Copy
import Emission.Store.Math

/-!
Defining and calling functions. A name is defined once, and a call by that name runs the body that was
defined, whatever the declaration used for the call. Parameters of rank 0 receive copies of their arguments,
the others the arguments themselves. While a body runs, its function is the innermost of the running ones,
and it is no longer when the body ends, in whatever way. The meaning of bodies is given by the caller.
-/
namespace Emission

variable {Body : Type}

namespace Store

def function? (s : Store Body) (name : String) : Option (Declaration Body) :=
  s.functions.lookup name

/-- The definition under a name. -/
def definition (s : Store Body) (name : String) : Except Failure (Declaration Body × Body) :=
  match s.function? name with
  | some d =>
    match d.definition? with
    | some body => .ok (d, body)
    | none => .error (.invalidFunction name)
  | none => .error (.invalidFunction name)

end Store

namespace Declaration

/-- As many arguments as parameters, and of their base types. -/
def checkArguments (d : Declaration Body) (args : List Value) : Except Failure Unit := do
  if d.parameters.length ≠ args.length then
    throw (.invalidArgument (.argumentCount d.name d.parameters.length args.length))
  (d.parameters.zip args).forM fun (p, a) =>
    if p.type.base = a.base then .ok () else .error (.baseMismatch p.type.base a.base)

def checkCall (d : Declaration Body) (args : List Value) : Except Failure Unit := do
  args.forM Value.ensureDefined
  match d.intrinsic? with
  | some f => discard <| f.template args
  | none => d.checkArguments args

/-- What a call gives back: nothing for a function without result, else a value of the result's type. -/
def checkResult (d : Declaration Body) (result? : Option Value) : Except Failure (Option Value) :=
  if d.returnsVoid then .ok none
  else match result? with
    | none => .error (.invalidArgument (.missingResult d.name))
    | some v =>
      if v.base = d.result.base then .ok (some v) else .error (.baseMismatch d.result.base v.base)

end Declaration

namespace Action

def define (d : Declaration Body) (body : Body) : Action Body (Declaration Body) := do
  if d.isIntrinsic then throw (.invalidFunction d.name)
  if ((← get).function? d.name).isSome then throw (.invalidFunction d.name)
  modify fun s => { s with functions := (d.name, d.define body) :: s.functions }
  return d.define body

/-- A scalar parameter's own copy of its argument. -/
def passByValue (a : Value) : Action Body Value := do
  let v ← newStorage (.plain a.base) .scalar
  copy a v
  return v

def bindArguments : List Parameter → List Value → Action Body (List Value)
  | p :: parameters, a :: args => do
    let v ← if p.isScalar then passByValue a else pure a
    return v :: (← bindArguments parameters args)
  | _, _ => return []

def enterFunction (name : String) : Action Body Unit :=
  modify fun s => { s with calls := name :: s.calls }

def leaveFunction : Action Body Unit :=
  modify fun s => { s with calls := s.calls.tail }

end Action

variable {ε : Type} {m : Type → Type} [Monad m] [MonadExceptOf ε m]
  (lift : ∀ {α : Type}, Action Body α → m α) (eval : Body → List Value → m (Option Value))

/-- Runs a body as the innermost function. -/
def runWithin (name : String) (body : m (Option Value)) : m (Option Value) := do
  lift (Action.enterFunction name)
  let result ← tryCatchThe ε body fun e => do
    lift Action.leaveFunction
    throwThe ε e
  lift Action.leaveFunction
  return result

/-- Runs the definition under a name. -/
def invoke (name : String) (args : List Value) : m (Option Value) := do
  let (d, body) ← lift (Action.reading (·.definition name))
  let parameters ← lift (Action.bindArguments d.parameters args)
  let result ← runWithin (ε := ε) lift d.name (eval body parameters)
  lift (d.checkResult result)

def Declaration.call (d : Declaration Body) (args : List Value) : m (Option Value) := do
  lift (d.checkCall args)
  match d.intrinsic? with
  | some f => some <$> lift (Action.evaluate f args)
  | none => invoke (ε := ε) lift eval d.name args

end Emission
