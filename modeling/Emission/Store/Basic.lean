import Emission.Data
import Emission.Declaration.Basic
import Emission.Layout.Offset

/-!
The state of a context and its cells. Storage is a list of buffers. A handle names a slot, which is a
position in a buffer, so that several values can show the same cells. A value's elements lie at the offsets
of its layout from its slot, and a position that is no word ends in a panic. An action works on the state and
can fail, and what it did before it failed stays done.
-/
namespace Emission

structure Slot where
  buffer : Nat
  start : Nat
deriving DecidableEq

/-- Where named storage belongs: to the function that asks for it, or to all. -/
inductive Scope
  | function
  | global
deriving DecidableEq

structure Key where
  scope : Scope
  text : String
deriving DecidableEq

/-- The state of a context whose function definitions are of type `Body`. The innermost of the running
functions comes first. -/
structure Store (Body : Type) where
  buffers : Array Data
  slots : Array Slot
  names : List (Key × Value)
  functions : List (String × Declaration Body)
  calls : List String

abbrev Action (Body : Type) : Type → Type := ExceptT Failure (StateM (Store Body))

/-- Handles are 32-bit words. -/
def handleLimit : Nat := 1 <<< 32

namespace Store

variable {Body : Type}

def empty : Store Body := ⟨#[], #[], [], [], []⟩

def slot (s : Store Body) (h : Handle) : Except Failure Slot :=
  match s.slots[h.index]? with
  | some slot => .ok slot
  | none => .error (.invalidArgument (.unknownHandle h.index))

def buffer (s : Store Body) (h : Handle) : Except Failure Data := do
  let slot ← s.slot h
  match s.buffers[slot.buffer]? with
  | some data => .ok data
  | none => .error (.invalidArgument (.unknownHandle h.index))

/-- The slot of a value and the position of one of its elements in the slot's buffer. -/
def locate (s : Store Body) (v : Value) (coordinates : List Nat) : Except Failure (Handle × Nat) := do
  let h ← v.handle
  let slot ← s.slot h
  let offset ← (← v.layout).entryOffset coordinates
  if slot.start + offset < wordLimit then return (h, slot.start + offset)
  else throw (.panic .sumOverflow)

def fetch (s : Store Body) (v : Value) (coordinates : List Nat) : Except Failure Datum := do
  let (h, i) ← s.locate v coordinates
  (← s.buffer h).load i

/-- The element of a scalar. -/
def element (s : Store Body) (x : Scalar) : Except Failure Datum :=
  s.fetch x.value []

end Store

namespace Action

variable {Body : Type}

/-- The outcome of an action on a state, and the state after it. -/
def exec {α : Type} (action : Action Body α) (s : Store Body) : Except Failure α × Store Body :=
  (ExceptT.run action).run s

/-- What is learnt from the state without changing it. -/
@[inline] def reading {α : Type} (f : Store Body → Except Failure α) : Action Body α := do
  let result := f (← get)
  liftM result

/-- Issues a handle for a slot. -/
def newSlot (slot : Slot) : Action Body Handle := do
  let n := (← get).slots.size
  if n < handleLimit then
    modify fun s => { s with slots := s.slots.push slot }
    return ⟨n⟩
  else
    throw (.backend .handlesExhausted)

/-- A value on a new buffer. -/
def newBuffer (data : Data) (l : Layout) : Action Body Value := do
  let type := ElementType.plain (.cell data.kind)
  let n := (← get).buffers.size
  modify fun s => { s with buffers := s.buffers.push data }
  let h ← newSlot ⟨n, 0⟩
  return ⟨type, some l, some h⟩

/-- Replaces one element of the buffer behind a handle. -/
def writeCell (h : Handle) (i : Nat) (d : Datum) : Action Body Unit := do
  let length ← reading fun s => return (← s.buffer h).size
  if i < length then
    let slot ← reading (·.slot h)
    modify fun s => { s with buffers := s.buffers.modify slot.buffer (·.set i d) }
  else
    throw (.invalidArgument (.elementOutside i length))

def write (v : Value) (coordinates : List Nat) (d : Datum) : Action Body Unit := do
  let (h, i) ← reading (·.locate v coordinates)
  writeCell h i d

end Action

end Emission
