import Emission.Script.Make
import Emission.Store.Branch
import Emission.Store.Loop

/-!
Running scripts. Every step is recorded when it ends, after the steps of its bodies. A failing step ends the
body that it stands in, unless it is an attempt, and its failure becomes that of the body. The program itself
goes on after a failed step, but not after a panic.
-/
namespace Emission.Script

/-- The number of the context that a question names; the first one unless it names any. -/
def questionContext : Option String → Computation Nat
  | some name => contextNumber name
  | none => return 0

def Question.answer : Question → Computation Answer
  | read r context? => do
    let i ← questionContext context?
    let v ← readRegister r
    return .data (← onContext i (.reading (·.read v)))
  | buffer r context? => do
    let i ← questionContext context?
    let v ← readRegister r
    return .data (← onContext i (.reading (·.readBuffer v)))
  | inspect r => return .inspection (← readRegister r)
  | same a b => return .same ((← readRegister a) = (← readRegister b))
  | typeOfHandle handle => return .type (← onActive (.reading (·.typeOf handle)))
  | typeOf r => do
    let handle ← (← readRegister r).handle
    return .type (← onActive (.reading (·.typeOf handle)))
  | mark text => return .text text
  | failure f => throw (.failed f)
  | isActive => return .active (← get).activation.isActive
  | intrinsics => do
    discard current
    return .names (Intrinsic.all.map Intrinsic.name)

/-- The parameters of a declaration step; those without a layout are scalar. -/
def addParameters : List (String × ElementType × Recipe) → Declaration Body →
    Computation (Declaration Body)
  | [], d => return d
  | (name, type, layout) :: parameters, d => do
    let l ← layout.build
    addParameters parameters (d.withParameter ⟨name, type, l⟩)

def Origin.declaration : Origin → Declaration Body
  | .name n => .ofName n
  | .intrinsic f => f.declaration

def enterFrame (f : Frame) : Computation Unit :=
  modify fun s => { s with frames := f :: s.frames }

def leaveFrame : Computation Unit :=
  modify fun s => { s with frames := s.frames.tail }

/-- Runs a function body in a frame of its own, and reads its result there. -/
def evalBody (run : List Step → Computation Unit) (body : Body) (args : List Value) :
    Computation (Option Value) := do
  enterFrame (.bind [] body.parameters args)
  let result ← tryCatch (run body.steps *> body.result?.mapM readRegister) fun e => do
    leaveFrame
    throw e
  leaveFrame
  return result

/-- What a step does, with a way to run the steps of its bodies. -/
def Step.answer (run : List Step → Computation Unit) : Step → Computation Answer
  | make maker to? => do
    let v ← maker.run
    writeResult to? v
    return .value v
  | ask question => question.answer
  | asVector r to? => do
    let v ← readVector r
    writeResult to? v.value
    return .vector v
  | activate context guard muted => do
    let i ← contextNumber context
    let serial := (← get).serial
    let b := if muted then Backend.muted serial i else .direct i
    modify fun s => { s with activation := s.activation.enter guard b, serial := serial + 1 }
    return .done
  | deactivate guard => do
    modify fun s => { s with activation := s.activation.leave guard }
    return .done
  | copy source destination => do
    let v ← readRegister destination
    onActive (.copy (← readRegister source) v)
    return .destination v
  | move source destination => do
    discard current
    let (s, d) ← (← readRegister source).move
    writeRegister source s
    writeRegister destination d
    return .moved s d
  | forEach layout indices body => do
    let l ← layout.build
    let b ← current
    Emission.forEach (onContext b.context) l fun scalars => do
      modify (·.updateFrame (·.bind indices (scalars.map Scalar.value)))
      run body
    return .iterations l.numElements
  | conditional test body others otherwise? => do
    let t ← readScalar test
    let b ← current
    Emission.conditional (onContext b.context) t (run body)
      (others.map fun (test, body) => (readScalar test, run body)) (otherwise?.map run)
    return .conditional
  | declare id origin result? parameters => do
    let d := origin.declaration
    let d ← addParameters parameters (match result? with
      | some type => d.returns type
      | none => d)
    setDeclaration id d
    return .declaration d
  | define id body result? to? => do
    let d ← declarationOf id
    let d ← onActive (.define d ⟨d.parameters.map Parameter.name, body, result?⟩)
    setDeclaration (to?.getD id) d
    return .declaration d
  | call id args to? => do
    let d ← declarationOf id
    let args ← readRegisters args
    match ← callOn (← current) (evalBody run) d args with
    | some v => do
      writeResult to? v
      return .value v
    | none => return .noValue
  | attempt step => step.answer run

def record (step : Step) (outcome : Except Failure Answer) : Computation Unit :=
  modify fun s => { s with trace := s.trace.push ⟨step, outcome, s.bufferCounts⟩ }

def Step.isAttempt : Step → Bool
  | attempt _ => true
  | _ => false

/-- Runs a step and records it. -/
def Step.perform (run : List Step → Computation Unit) (step : Step) : Computation Unit := do
  let result ← Script.outcome (step.answer run)
  record step result
  match result with
  | .ok _ => return
  | .error f => if step.isAttempt then return else throw (.failed f)

/-- Runs the steps of a body, with bodies nested to the given depth. -/
def runSteps : Nat → List Step → Computation Unit
  | 0, _ => throw .tooDeep
  | depth + 1, steps => steps.forM fun step => step.perform (runSteps depth)

/-- Runs the steps of a program, each whether or not those before it failed. -/
def runProgram (depth : Nat) (steps : List Step) : Computation Unit :=
  steps.forM fun step => discard <| outcome (step.perform (runSteps depth))

/-- How deeply bodies may nest. -/
def depthLimit : Nat := 1000000

/-- What a program has answered, and what has stopped it if it was not run to its end. -/
structure Report where
  entries : List Entry
  activeAtEnd : Bool
  stop? : Option Stop

/-- Runs a program and then ends the guards that are left. -/
def Program.run (p : Program) : Report :=
  let (result, s) := (runProgram depthLimit p.steps).exec (.start p)
  ⟨s.trace.toList, s.activation.leaveAll.isActive, match result with
    | .ok () => none
    | .error stop => some stop⟩

end Emission.Script
