/-!
The active contexts. A guard activates its context for as long as it lives, and free operations go to the
innermost active one. A context can be active several times. When a guard ends, the innermost entry of its
context leaves the stack, wherever the guard itself stood.
-/
namespace Emission

/-- The innermost context comes first in the stack, and the newest of the living guards first. -/
structure Activation (Guard Context : Type) where
  stack : List Context
  guards : List (Guard × Context)

namespace Activation

variable {Guard Context : Type} [DecidableEq Guard] [DecidableEq Context]

def empty : Activation Guard Context := ⟨[], []⟩

def current? (a : Activation Guard Context) : Option Context := a.stack.head?

def isActive (a : Activation Guard Context) : Bool := !a.stack.isEmpty

def guarded? (a : Activation Guard Context) (g : Guard) : Option Context := a.guards.lookup g

def enter (a : Activation Guard Context) (g : Guard) (c : Context) : Activation Guard Context :=
  ⟨c :: a.stack, (g, c) :: a.guards⟩

def leave (a : Activation Guard Context) (g : Guard) : Activation Guard Context :=
  match a.guarded? g with
  | some c => ⟨a.stack.erase c, a.guards.eraseP (·.1 = g)⟩
  | none => a

/-- Ends all guards, the newest first. -/
def leaveAll (a : Activation Guard Context) : Activation Guard Context :=
  ⟨a.guards.foldl (fun stack (_, c) => stack.erase c) a.stack, []⟩

end Activation

end Emission
