import Emission.Layout.Basic

/-!
Addressing within a layout. The offset of logical coordinates `c` is the sum of `stride * (c axis + offset)`
over the dimensions, and every step towards it has to be a word.
-/
namespace Emission

/-- What the dimension adds to the offset of the coordinates. -/
def Dimension.term? (d : Dimension) (coordinates : List Nat) : Option Nat := do
  checkedMul (← checkedAdd (← coordinates[d.axis]?) d.offset) d.stride

namespace Layout

def checkRank (l : Layout) (given : Nat) : Except Failure Unit :=
  if given = l.rank then .ok () else .error (.invalidArgument (.coordinateCount l.rank given))

/-- The sum of the terms of some dimensions, added to a running total. -/
def offsetFrom? (coordinates : List Nat) : List Dimension → Nat → Option Nat
  | [], total => some total
  | d :: dims, total => do
    offsetFrom? coordinates dims (← checkedAdd total (← d.term? coordinates))

def entryOffset (l : Layout) (coordinates : List Nat) : Except Failure Nat := do
  l.checkRank coordinates.length
  match offsetFrom? coordinates l.dims 0 with
  | some total => return total
  | none => throw (.invalidArgument (.offsetOverflow coordinates))

end Layout

end Emission
