import Emission.Proofs.Data
import Emission.Proofs.Store.Execution

/-!
How a store changes. A store grows when it gets new buffers and slots and keeps everything else as it
was; it extends another one when also the contents of old buffers may have changed, but neither their
kinds nor their lengths. What a handle leads to stays what it was.
-/
namespace Emission

namespace Store

variable {Body : Type}

/-- Only new buffers and new slots have been added. -/
def Grows (s s' : Store Body) : Prop :=
  ∃ bs hs, s' = { s with buffers := s.buffers ++ bs, slots := s.slots ++ hs }

/-- No slot has changed, and no buffer's kind or length. -/
structure Extends (s s' : Store Body) : Prop where
  slots : ∀ (i : Nat) (x : Slot), s.slots[i]? = some x → s'.slots[i]? = some x
  buffers : ∀ (i : Nat) (a : Data), s.buffers[i]? = some a →
    ∃ a', s'.buffers[i]? = some a' ∧ a'.kind = a.kind ∧ a'.size = a.size

variable {s s' s'' : Store Body}

namespace Grows

theorem refl (s : Store Body) : s.Grows s := ⟨#[], #[], by simp⟩

theorem trans (h : s.Grows s') (h' : s'.Grows s'') : s.Grows s'' := by
  obtain ⟨bs, hs, rfl⟩ := h
  obtain ⟨bs', hs', rfl⟩ := h'
  exact ⟨bs ++ bs', hs ++ hs', by simp only [Array.append_assoc]⟩

instance : Std.Refl (@Grows Body) := ⟨refl⟩

instance : IsTrans (Store Body) Grows := ⟨fun _ _ _ => trans⟩

theorem getElem?_buffers (h : s.Grows s') {i : Nat} (hi : i < s.buffers.size) :
    s'.buffers[i]? = s.buffers[i]? := by
  obtain ⟨bs, hs, rfl⟩ := h
  exact Array.getElem?_append_left hi

theorem getElem?_slots (h : s.Grows s') {i : Nat} (hi : i < s.slots.size) :
    s'.slots[i]? = s.slots[i]? := by
  obtain ⟨bs, hs, rfl⟩ := h
  exact Array.getElem?_append_left hi

theorem buffer_some (h : s.Grows s') {i : Nat} {a : Data} (ha : s.buffers[i]? = some a) :
    s'.buffers[i]? = some a := by
  rw [h.getElem?_buffers (Array.getElem?_eq_some_iff.mp ha).1, ha]

theorem slot_some (h : s.Grows s') {i : Nat} {x : Slot} (hx : s.slots[i]? = some x) :
    s'.slots[i]? = some x := by
  rw [h.getElem?_slots (Array.getElem?_eq_some_iff.mp hx).1, hx]

theorem toExtends (h : s.Grows s') : s.Extends s' where
  slots _ _ hx := h.slot_some hx
  buffers _ a ha := ⟨a, h.buffer_some ha, rfl, rfl⟩

end Grows

namespace Extends

theorem refl (s : Store Body) : s.Extends s :=
  ⟨fun _ _ hx => hx, fun _ a ha => ⟨a, ha, rfl, rfl⟩⟩

theorem trans (h : s.Extends s') (h' : s'.Extends s'') : s.Extends s'' where
  slots i x hx := h'.slots i x (h.slots i x hx)
  buffers i a ha := by
    obtain ⟨a', ha', hkind, hsize⟩ := h.buffers i a ha
    obtain ⟨a'', ha'', hkind', hsize'⟩ := h'.buffers i a' ha'
    exact ⟨a'', ha'', hkind'.trans hkind, hsize'.trans hsize⟩

instance : Std.Refl (@Extends Body) := ⟨refl⟩

instance : IsTrans (Store Body) Extends := ⟨fun _ _ _ => trans⟩

theorem size_le (h : s.Extends s') : s.buffers.size ≤ s'.buffers.size := by
  refine Nat.le_of_not_lt fun hsize => ?_
  obtain ⟨a, ha, -⟩ := h.buffers s'.buffers.size _ (Array.getElem?_eq_getElem hsize)
  exact Nat.lt_irrefl _ (Array.getElem?_eq_some_iff.mp ha).1

end Extends

/-- The state with a new buffer and a slot at its start. -/
def withBuffer (s : Store Body) (data : Data) : Store Body :=
  { s with buffers := s.buffers.push data, slots := s.slots.push ⟨s.buffers.size, 0⟩ }

theorem grows_withBuffer (s : Store Body) (data : Data) : s.Grows (s.withBuffer data) :=
  ⟨#[data], #[⟨s.buffers.size, 0⟩], rfl⟩

theorem grows_pushBuffer (s : Store Body) (data : Data) :
    s.Grows { s with buffers := s.buffers.push data } :=
  ⟨#[data], #[], by rw [Array.append_empty]; rfl⟩

theorem grows_pushSlot (s : Store Body) (x : Slot) :
    s.Grows { s with slots := s.slots.push x } :=
  ⟨#[], #[x], by rw [Array.append_empty]; rfl⟩

/-- The state with one cell of one buffer replaced. -/
def withCell (s : Store Body) (buffer i : Nat) (d : Datum) : Store Body :=
  { s with buffers := s.buffers.modify buffer (·.set i d) }

theorem getElem?_withCell {b : Nat} {a : Data} (ha : s.buffers[b]? = some a) (buffer i : Nat)
    (d : Datum) : (s.withCell buffer i d).buffers[b]? =
      some (if buffer = b then a.set i d else a) := by
  rw [withCell, Array.getElem?_modify, ha]
  split <;> rfl

theorem extends_withCell (s : Store Body) (buffer i : Nat) (d : Datum) :
    s.Extends (s.withCell buffer i d) where
  slots _ _ hx := hx
  buffers j a ha := by
    refine ⟨_, getElem?_withCell ha buffer i d, ?_, ?_⟩
    · split <;> rfl
    · split <;> simp

theorem slot_eq_ok_iff {h : Handle} {x : Slot} :
    s.slot h = .ok x ↔ s.slots[h.index]? = some x := by
  unfold slot
  cases s.slots[h.index]? <;> simp

theorem buffer_eq_ok_iff {h : Handle} {x : Slot} {a : Data} (hx : s.slot h = .ok x) :
    s.buffer h = .ok a ↔ s.buffers[x.buffer]? = some a := by
  unfold buffer
  rw [hx, ok_bind]
  cases s.buffers[x.buffer]? <;> simp

end Store

end Emission
