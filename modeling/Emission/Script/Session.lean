import Emission.Script.Step

/-!
The state of a running script: its contexts and which of them are active, a frame of registers for the
script and one for each running function, the declarations by their identifiers, and the trace of what the
steps have answered. A computation of a script can fail as an action can, and it can also nest too deeply to
be carried on.
-/
namespace Emission.Script

/-- What can be active: a context, or a stand-in that hands all but calls on to a context. Each stand-in is
a backend of its own. -/
inductive Backend
  | direct (context : Nat)
  | muted (serial context : Nat)
deriving DecidableEq

def Backend.context : Backend → Nat
  | direct i | muted _ i => i

abbrev Frame := List (Register × Value)

inductive Answer
  | value (v : Value)
  | noValue
  | data (data : Data)
  | inspection (v : Value)
  | vector (v : Vector)
  | same (answer : Bool)
  | type (type : ElementType)
  | text (text : String)
  | active (answer : Bool)
  | destination (v : Value)
  | moved (source destination : Value)
  | iterations (n : Nat)
  | conditional
  | declaration (d : Declaration Body)
  | names (names : List String)
  | done

/-- What a step answered, and how many buffers each context had then. -/
structure Entry where
  step : Step
  outcome : Except Failure Answer
  bufferCounts : List Nat

/-- The innermost frame comes first; the script's own lies below all others. -/
structure Session where
  contexts : Array (Store Body)
  names : List String
  activation : Activation String Backend
  frames : List Frame
  bottom : Frame
  declarations : List (String × Declaration Body)
  serial : Nat
  trace : Array Entry

inductive Stop
  | failed (f : Failure)
  | tooDeep

abbrev Computation : Type → Type := ExceptT Stop (StateM Session)

/-- What a computation comes to in a session, and the session after it. -/
def Computation.exec {α : Type} (c : Computation α) (s : Session) : Except Stop α × Session :=
  (ExceptT.run c).run s

instance : MonadLift (Except Failure) Computation where
  monadLift
    | .ok a => pure a
    | .error f => throw (.failed f)

namespace Frame

def read? (f : Frame) (r : Register) : Option Value := f.lookup r

def write (f : Frame) (r : Register) (v : Value) : Frame :=
  (r, v) :: f.filter (·.1 != r)

/-- Registers bound to values in order; extra ones on either side are left out. -/
def bind (f : Frame) (registers : List Register) (values : List Value) : Frame :=
  (registers.zip values).foldl (fun f (r, v) => f.write r v) f

end Frame

namespace Session

def start (p : Program) : Session :=
  let names := p.contexts?.getD ["main"]
  let activation := match p.contexts? with
    | some _ => .empty
    | none => Activation.empty.enter "main" (Backend.direct 0)
  ⟨(names.map fun _ => Store.empty).toArray, names, activation, [], [], [], 0, #[]⟩

/-- A register is looked up in the current frame and then in the bottom one; one that was never written
holds an undefined void value. -/
def read (s : Session) (r : Register) : Value :=
  match (s.frames.head?.bind (·.read? r)) <|> s.bottom.read? r with
  | some v => v
  | none => .ofType (.plain .void)

def updateFrame (s : Session) (f : Frame → Frame) : Session :=
  match s.frames with
  | frame :: frames => { s with frames := f frame :: frames }
  | [] => { s with bottom := f s.bottom }

def bufferCounts (s : Session) : List Nat :=
  s.contexts.toList.map (·.buffers.size)

end Session

/-- Runs an action on the context with the given number. -/
def onContext (i : Nat) {α : Type} (action : Action Body α) : Computation α := do
  let store ← modifyGet fun s =>
    (s.contexts[i]?.getD .empty, { s with contexts := s.contexts.setIfInBounds i .empty })
  let (result, store) := action.exec store
  modify fun s => { s with contexts := s.contexts.setIfInBounds i store }
  liftM result

/-- The innermost active backend. -/
def current : Computation Backend := do
  match (← get).activation.current? with
  | some b => return b
  | none => throw (.failed (.illegalState .noActiveContext))

def onActive {α : Type} (action : Action Body α) : Computation α := do
  onContext (← current).context action

def readRegister (r : Register) : Computation Value :=
  return (← get).read r

def readRegisters (rs : List Register) : Computation (List Value) :=
  return rs.map (← get).read

def writeRegister (r : Register) (v : Value) : Computation Unit :=
  modify (·.updateFrame (·.write r v))

def writeResult (to? : Option Register) (v : Value) : Computation Unit :=
  match to? with
  | some r => writeRegister r v
  | none => return

def readScalar (r : Register) : Computation Scalar := do
  Scalar.ofValue (← readRegister r)

def readScalars : List Register → Computation (List Scalar)
  | [] => return []
  | r :: rs => do
    let a ← readScalar r
    return a :: (← readScalars rs)

def readVector (r : Register) : Computation Vector := do
  Vector.ofValue (← readRegister r)

def readArgument : Argument → Computation Operand
  | .scalar r => return .scalar (← readScalar r)
  | .vector r => return .vector (← readVector r)

/-- The number of a context. -/
def contextNumber (name : String) : Computation Nat := do
  match (← get).names.idxOf? name with
  | some i => return i
  | none => throw (.failed (.illegalState .noActiveContext))

def declarationOf (id : String) : Computation (Declaration Body) := do
  match (← get).declarations.lookup id with
  | some d => return d
  | none => throw (.failed (.invalidFunction id))

def setDeclaration (id : String) (d : Declaration Body) : Computation Unit :=
  modify fun s => { s with declarations := (id, d) :: s.declarations.filter (·.1 != id) }

/-- What a computation gives or why it fails. Panics and nesting too deeply are not caught. -/
def outcome {α : Type} (c : Computation α) : Computation (Except Failure α) := do
  tryCatch (Except.ok <$> c) fun
    | .failed f => if f.isPanic then throw (.failed f) else return .error f
    | .tooDeep => throw .tooDeep

end Emission.Script
