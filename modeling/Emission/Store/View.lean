import Emission.Store.Basic

/-!
Views of single elements. An offset gives a new handle on a later cell of the same buffer.
-/
namespace Emission.Action

variable {Body : Type}

/-- A view of the element `index` cells past the start of a value. -/
def offset (v : Value) (index : Scalar) : Action Body Value := do
  v.ensureDefined
  index.value.ensureDefined
  if !index.base.isIntegral then throw (.baseMismatch .int32 index.base)
  let h ← v.handle
  let slot ← reading (·.slot h)
  let i ← (← reading (·.element index)).toIndex
  let length ← reading fun s => return (← s.buffer h).size
  -- the sum is a word, since slots start at cells and indexes are below half of the words
  if slot.start + i < length then
    return ⟨v.type, some .scalar, some (← newSlot ⟨slot.buffer, slot.start + i⟩)⟩
  else
    throw (.invalidArgument (.offsetOutside i length))

end Emission.Action
