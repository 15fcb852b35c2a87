import Emission.Layout.Odometer
import Emission.Store.Basic

/-!
Reading storage. Reading a value gives its active elements in logical order, converted to its base type, in
an array that is allocated first. The whole buffer behind a handle can be read as well, and the type of a
handle points to what its buffer holds.
-/
namespace Emission.Store

variable {Body : Type}

def read (s : Store Body) (v : Value) : Except Failure Data := do
  let l ← v.layout
  let k ← (ElementType.plain v.base).storable
  reserve k l.numElements
  let elements ← l.foldCoordinatesM #[] fun elements c => return elements.push (← s.fetch v c)
  return Data.ofList k elements.toList

def readBuffer (s : Store Body) (v : Value) : Except Failure Data := do
  s.buffer (← v.handle)

def typeOf (s : Store Body) (h : Handle) : Except Failure ElementType := do
  let type := ElementType.plain (.cell (← s.buffer h).kind)
  match type.pointerTo? with
  | some pointer => return pointer
  | none => throw (.invalidValueType (.noPointer type))

end Emission.Store
