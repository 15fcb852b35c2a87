import Emission.Store.Basic

/-!
New storage. Storage starts out as zeros, or holds given constants. Named storage is created by the first
request for its name; later ones get the same storage with a layout of their own, which has to have the same
element type and no more elements than the first. A name of function scope belongs to the running function.
-/
namespace Emission

variable {Body : Type}

def Store.key (s : Store Body) (scope : Scope) (name : String) : Key :=
  match scope with
  | .global => ⟨.global, name⟩
  | .function => ⟨.function, s.calls.head?.getD "" ++ "." ++ name⟩

def Store.named? (s : Store Body) (key : Key) : Option Value :=
  s.names.lookup key

namespace Action

/-- Storage for every element that a layout allocates. -/
def newStorage (type : ElementType) (l : Layout) : Action Body Value := do
  newBuffer (← Data.zeroed type l.memorySize) l

def allocate (type : ElementType) (l : Layout) : Action Body Value := do
  if type = .plain .void then throw (.invalidArgument .voidStorage)
  newStorage type l

def allocateRow (type : ElementType) (length : Nat) : Action Body Value := do
  allocate type (← Layout.ofSizes [length])

def storeConstant (c : Constant) : Action Body Value := do
  newBuffer c.data (← Layout.ofSizes [c.data.size])

/-- The storage of an earlier request, seen through a new layout. -/
def reuse (existing : Value) (type : ElementType) (l : Layout) : Except Failure Value := do
  if existing.type ≠ type then throw (.typeMismatch existing.type type)
  let capacity := (← existing.layout).memorySize
  if capacity < l.memorySize then throw (.invalidSize l.memorySize capacity)
  return existing.withLayout l

def allocateNamed (scope : Scope) (name : String) (type : ElementType) (l : Layout) :
    Action Body Value := do
  if type = .plain .void then throw (.invalidArgument .voidStorage)
  let key := (← get).key scope name
  match (← get).named? key with
  | some existing => reuse existing type l
  | none => do
    let v ← newStorage type l
    modify fun s => { s with names := (key, v) :: s.names }
    return v

end Action

end Emission
