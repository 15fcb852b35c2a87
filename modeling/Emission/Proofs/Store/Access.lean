import Emission.Proofs.Store.Tabulation
import Emission.Store.Addressing

/-!
Access to single elements. An element of a value is a cell of the buffer behind the value's handle, for
fetching and for writing. The number of the cell is the start of the slot and the entry offset added up. The
offset is checked, and so is the number against the length of the buffer, but the sum of start and offset is
not: where it is no word, fetching and writing both end in a panic.
-/
namespace Emission

variable {Body : Type}

namespace Store

/-- The element can be neither fetched nor written, for the same reason, and the state stays as it is. -/
def Fails (s : Store Body) (v : Value) (c : List Nat) (e : Failure) : Prop :=
  s.fetch v c = .error e ∧ ∀ d, (Action.write v c d).exec s = (.error e, s)

/-- Fetching and writing the element use one cell of a buffer with some contents, if there is such a cell. -/
structure Accesses (s : Store Body) (v : Value) (c : List Nat) (buffer : Nat) (a : Data) (j : Nat) :
    Prop where
  within : j < a.size → s.fetch v c = .ok (a.get j) ∧
    ∀ d, (Action.write v c d).exec s = (.ok (), s.withCell buffer j d)
  beyond : a.size ≤ j → s.Fails v c (.invalidArgument (.elementOutside j a.size))

variable {s : Store Body} {v : Value} {l : Layout} {h : Handle} {slot : Slot} {a : Data} {c : List Nat}
  {e : Failure}

theorem fails_of_locate (hlocate : s.locate v c = .error e) : s.Fails v c e := by
  refine ⟨by rw [fetch, hlocate, error_bind], fun d => ?_⟩
  unfold Action.write
  rw [Action.exec_bind, Action.exec_reading, hlocate]

/-- An element that has a place is the cell there. -/
theorem accesses_of_locate {j : Nat} (hslot : s.slots[h.index]? = some slot)
    (ha : s.buffers[slot.buffer]? = some a) (hlocate : s.locate v c = .ok (h, j)) :
    s.Accesses v c slot.buffer a j := by
  have hs := slot_eq_ok_iff.mpr hslot
  have hbuffer : s.buffer h = .ok a := (buffer_eq_ok_iff hs).mpr ha
  constructor
  · intro hj
    refine ⟨by simp only [fetch, hlocate, ok_bind, hbuffer, Data.load_of_lt hj], fun d => ?_⟩
    unfold Action.write
    rw [Action.exec_bind, Action.exec_reading, hlocate]
    exact Action.exec_writeCell s d hs ha hj
  · intro hj
    have hnone : a.cells[j]? = none := Array.getElem?_eq_none hj
    refine ⟨by simp only [fetch, hlocate, ok_bind, hbuffer, Data.load, hnone], fun d => ?_⟩
    unfold Action.write Action.writeCell
    simp only [Action.exec_bind, Action.exec_reading, hlocate, hbuffer, ok_bind, pure_eq_ok,
      if_neg (Nat.not_lt.mpr hj), Action.exec_throw]

/-- To reach for an element that has a place is no panic. -/
theorem Accesses.not_fails {p : Panic} {buffer j : Nat} (h : s.Accesses v c buffer a j) :
    ¬ s.Fails v c (.panic p) := by
  intro hfails
  rcases Nat.lt_or_ge j a.size with hj | hj
  · cases (h.within hj).1.symm.trans hfails.1
  · cases (h.beyond hj).1.symm.trans hfails.1

/-- An element whose handle is unknown is refused. Any other is the cell of the handle's buffer at the exact
sum of start and entry offset, or refused for lying beyond the buffer's end, if the sum is a word; if it is
none, and only then, the program panics. Reading fetches the elements in logical order as soon as there is
room for as many, and panics if there is none, unless the value is of a type that has no elements. -/
theorem access_exact_iff (hl : v.layout? = some l) (hob : l.Obtainable) (hh : v.handle? = some h) :
    (∀ c, l.InRange c → l.entryOffset c = .ok (l.address c)) ∧
    (s.slots[h.index]? = none → ∀ c, l.InRange c →
      s.Fails v c (.invalidArgument (.unknownHandle h.index))) ∧
    (∀ slot a, s.slots[h.index]? = some slot → s.buffers[slot.buffer]? = some a → ∀ c, l.InRange c →
      (slot.start + l.address c < wordLimit →
        s.Accesses v c slot.buffer a (slot.start + l.address c)) ∧
      (s.Fails v c (.panic .sumOverflow) ↔ wordLimit ≤ slot.start + l.address c)) ∧
    (∀ k, v.base = .cell k →
      (l.numElements < cellLimit → s.read v = (l.coordinates.mapM (s.fetch v)).map (Data.ofList k)) ∧
      (cellLimit ≤ l.numElements →
        s.read v = .error (.panic (.allocation (l.numElements * k.sizeInBytes))))) ∧
    (v.base = .void → s.read v = .error (.invalidValueType (.unstorable (.plain .void)))) := by
  have hwell := hob.wellFormed
  refine ⟨fun c hc => hc.entryOffset_eq hwell, fun hnone c _ => ?_, fun slot a hslot ha c hc => ?_,
    fun k hbase => ⟨read_eq_mapM hl hbase, fun hle => ?_⟩, fun hbase => ?_⟩
  · refine fails_of_locate ?_
    simp only [locate, Value.handle_eq_ok_iff.mpr hh, ok_bind, Store.slot, hnone, error_bind]
  · have hlocate := locate_eq hl hwell hh hslot hc
    by_cases hword : slot.start + l.address c < wordLimit
    · rw [if_pos hword] at hlocate
      have haccess := accesses_of_locate hslot ha hlocate
      exact ⟨fun _ => haccess, iff_of_false haccess.not_fails (Nat.not_le.mpr hword)⟩
    · rw [if_neg hword] at hlocate
      exact ⟨fun hlt => absurd hlt hword, iff_of_true (fails_of_locate hlocate) (Nat.not_lt.mp hword)⟩
  · exact read_without_room hl hbase (Nat.not_lt.mpr hle)
  · simp only [read, Value.layout_eq_ok_iff.mpr hl, ok_bind, hbase, ElementType.storable, error_bind]

/-- The second element of a padded pair, seen from the second cell of a row of six. -/
theorem access_exact_iff_padded :
    let s : Store Unit := { Store.empty with
      buffers := #[Action.bytes [4, 5, 6, 7, 8, 9]], slots := #[⟨0, 0⟩, ⟨0, 1⟩] }
    let l : Layout := ⟨[⟨2, 4, 1, 1, 0⟩]⟩
    let v : Value := ⟨.plain (.cell (.integer .byte)), some l, some ⟨1⟩⟩
    l.InRange [1] ∧ l.entryOffset [1] = .ok 2 ∧
      s.Accesses v [1] 0 (Action.bytes [4, 5, 6, 7, 8, 9]) 3 ∧ s.read v = .ok (Action.bytes [6, 7]) := by
  intro s l v
  have hob : l.Obtainable := ⟨.padded [2] [1], rfl⟩
  have hc : l.InRange [1] := .cons (by decide) .nil
  obtain ⟨hexact, -, hcell, hread, -⟩ := access_exact_iff (s := s) (v := v) rfl hob rfl
  have haccess := (hcell ⟨0, 1⟩ (Action.bytes [4, 5, 6, 7, 8, 9]) rfl rfl [1] hc).1 (by decide)
  exact ⟨hc, hexact [1] hc, haccess, ((hread (.integer .byte) rfl).1 (by decide)).trans rfl⟩

theorem row_fits : (Action.bytes [7, 8, 9]).size < cellLimit := by decide

/-- A row of bytes and the number of its last cell are stored, and a view of the cell is made. -/
def lastOfRow : Action Unit Value := do
  let row ← Action.storeConstant ⟨Action.bytes [7, 8, 9], row_fits⟩
  let number ← Action.storeConstant (.single (.integer .byte) (.integer .byte 2))
  Action.offset row (← Scalar.ofValue (number.withLayout .scalar))

/-- A layout whose only element is the last but one of all words, attached to the view. The element has
neither a cell nor a place beyond the end: to reach for it is a panic. -/
theorem access_panics :
    let l : Layout := ⟨[⟨1, wordLimit - 1, wordLimit - 2, 1, 0⟩]⟩
    let a : Data := Action.bytes [7, 8, 9]
    ∃ (w : Value) (s : Store Unit), lastOfRow.exec Store.empty = (.ok w, s) ∧ s.buffers[0]? = some a ∧
      l.Obtainable ∧ l.InRange [0] ∧ l.entryOffset [0] = .ok (wordLimit - 2) ∧
      s.Fails (w.withLayout l) [0] (.panic .sumOverflow) ∧
      s.read (w.withLayout l) = .error (.panic .sumOverflow) ∧
      ¬ ((∃ fault, s.Fails (w.withLayout l) [0] (.invalidArgument fault)) ∨
        s.Accesses (w.withLayout l) [0] 0 a (2 + (wordLimit - 2))) := by
  intro l a
  let w : Value := ⟨.plain (.cell (.integer .byte)), some .scalar, some ⟨2⟩⟩
  let s : Store Unit := { Store.empty with
    buffers := #[a, Action.bytes [2]], slots := #[⟨0, 0⟩, ⟨1, 0⟩, ⟨0, 2⟩] }
  have hob : l.Obtainable := ⟨.parts [1] [wordLimit - 1] [wordLimit - 2] [0], rfl⟩
  have hc : l.InRange [0] := .cons (by decide) .nil
  have hslot : s.slots[(⟨2⟩ : Handle).index]? = some ⟨0, 2⟩ := rfl
  have hlocate := locate_eq (v := w.withLayout l) rfl hob.wellFormed rfl hslot hc
  rw [if_neg (by decide)] at hlocate
  have hfails : s.Fails (w.withLayout l) [0] (.panic .sumOverflow) := fails_of_locate hlocate
  refine ⟨w, s, rfl, rfl, hob, hc, hc.entryOffset_eq hob.wellFormed, hfails, ?_, ?_⟩
  · rw [read_eq_mapM (l := l) (k := .integer .byte) rfl rfl (by decide)]
    show Except.map _ ([[0]].mapM (s.fetch (w.withLayout l))) = _
    rw [List.mapM_cons, hfails.1]
    rfl
  · rintro (⟨fault, hrefused⟩ | haccess)
    · cases hrefused.1.symm.trans hfails.1
    · exact haccess.not_fails hfails

end Store

end Emission
