import Emission.Store.Basic

/-!
Copying and moving. A copy takes the source's allocated elements, padding included, and writes them from the
destination's start on, cell by cell in ascending order. A move hands the source's storage over and leaves
the source undefined.
-/
namespace Emission

variable {Body : Type}

namespace Action

/-- Copies `count` cells, starting `i` cells after the start of both handles' slots. -/
def copyCells (source destination : Handle) : Nat → Nat → Action Body Unit
  | 0, _ => pure ()
  | count + 1, i => do
    -- both sums are words, since the first cell that is not there ends the copy
    let d ← reading fun s => do (← s.buffer source).load ((← s.slot source).start + i)
    let target ← reading (·.slot destination)
    writeCell destination (target.start + i) d
    copyCells source destination count (i + 1)

def copy (source destination : Value) : Action Body Unit := do
  source.ensureDefined
  destination.ensureDefined
  if source.base ≠ destination.base then throw (.baseMismatch destination.base source.base)
  let requested := (← source.layout).memorySize
  let capacity := (← destination.layout).memorySize
  if capacity < requested then throw (.invalidSize requested capacity)
  let h ← source.handle
  discard <| reading (·.slot h)
  let h' ← destination.handle
  discard <| reading (·.slot h')
  copyCells h h' requested 0

end Action

/-- The source without its storage, and the destination that takes it over. -/
def Value.move (source : Value) : Except Failure (Value × Value) := do
  source.ensureDefined
  return (source.released, source)

end Emission
