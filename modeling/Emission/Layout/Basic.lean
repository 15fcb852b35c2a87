import Emission.Failure

/-!
The layout of a value over flat storage. Dimensions are listed in physical order. Each has its active size,
the extent that is allocated for it, the offset of its first active position, its stride, and the logical
axis that it holds. All numbers of a layout, and the sums and products made of them, stay below `wordLimit`.
-/
namespace Emission

/-- Sizes and offsets are 64-bit words. -/
def wordLimit : Nat := 1 <<< 64

def checkedAdd (a b : Nat) : Option Nat :=
  if a + b < wordLimit then some (a + b) else none

def checkedMul (a b : Nat) : Option Nat :=
  if a * b < wordLimit then some (a * b) else none

structure Dimension where
  size : Nat
  extent : Nat
  offset : Nat
  stride : Nat
  axis : Nat
deriving DecidableEq

structure Layout where
  dims : List Dimension
deriving DecidableEq

namespace Layout

/-- The layout of a single element. -/
def scalar : Layout := ⟨[]⟩

def rank (l : Layout) : Nat := l.dims.length

def size (l : Layout) : List Nat := l.dims.map (·.size)

def extent (l : Layout) : List Nat := l.dims.map (·.extent)

def offset (l : Layout) : List Nat := l.dims.map (·.offset)

def stride (l : Layout) : List Nat := l.dims.map (·.stride)

/-- The axis of each dimension. -/
def order (l : Layout) : List Nat := l.dims.map (·.axis)

def isScalar (l : Layout) : Bool := l.dims.isEmpty

/-- No dimension is padded. -/
def isContiguous (l : Layout) : Bool := l.size == l.extent

/-- How many positions there are with some sizes. -/
def volume (sizes : List Nat) : Nat := sizes.foldr (· * ·) 1

/-- How many elements are active. -/
def numElements (l : Layout) : Nat := volume l.size

/-- How many elements are allocated, padding included. -/
def memorySize (l : Layout) : Nat := volume l.extent

def sizeAlong (l : Layout) (axis : Nat) : Nat :=
  match l.dims.find? (·.axis == axis) with
  | some d => d.size
  | none => 0

/-- The sizes in the order of the axes. -/
def logicalSize (l : Layout) : List Nat :=
  (List.range l.rank).map l.sizeAlong

@[simp] theorem length_logicalSize (l : Layout) : l.logicalSize.length = l.rank := by
  simp [logicalSize]

end Layout

end Emission
