import Emission.Store.Basic

/-!
Conditional chains. A chain remembers whether one of its branches has been taken; the tests that follow are
still checked, but they are not read and their bodies do not run. The tests and bodies may be computations
of any kind into which actions lift.
-/
namespace Emission

variable {Body : Type}

/-- A test is a defined boolean. -/
def checkTest (test : Scalar) : Except Failure Unit := do
  if test.base ≠ .boolean then throw (.baseMismatch .boolean test.base)
  test.value.ensureDefined

def Action.readTest (test : Scalar) : Action Body Bool :=
  reading fun s => return (← s.element test).toBool

structure Chain where
  taken : Bool

namespace Chain

variable {m : Type → Type} [Monad m] (lift : ∀ {α : Type}, Action Body α → m α)

/-- Begins a chain; the first branch is taken when its test holds. -/
def begin (test : Scalar) (body : m Unit) : m Chain := do
  lift (checkTest test)
  let taken ← lift (Action.readTest test)
  if taken then body
  return ⟨taken⟩

/-- A branch that is taken when none was before and its test holds. -/
def elseIf (chain : Chain) (test : Scalar) (body : m Unit) : m Chain := do
  lift (checkTest test)
  if chain.taken then return chain
  let taken ← lift (Action.readTest test)
  if taken then body
  return ⟨taken⟩

/-- Further branches, each test made when its turn comes. -/
def elseIfs (chain : Chain) : List (m Scalar × m Unit) → m Chain
  | [] => return chain
  | (test, body) :: others => do
    let chain ← chain.elseIf lift (← test) body
    chain.elseIfs others

/-- The branch that is taken when none was before. -/
def otherwise (chain : Chain) (body : m Unit) : m Unit := do
  if !chain.taken then body

end Chain

/-- A whole chain: the first branch, further ones, and perhaps a last one without a test. -/
def conditional {m : Type → Type} [Monad m] (lift : ∀ {α : Type}, Action Body α → m α)
    (test : Scalar) (body : m Unit) (others : List (m Scalar × m Unit))
    (otherwise? : Option (m Unit)) : m Unit := do
  let chain ← Chain.begin lift test body
  let chain ← chain.elseIfs lift others
  match otherwise? with
  | some body => chain.otherwise body
  | none => return

end Emission
