import Emission.Proofs.Store.Backing
import Emission.Store.Elementwise

/-!
New values and how they are filled. A new buffer gives a backed value while a handle is left. A
tabulation writes every element of the new buffer once, in logical order, and nothing else, so its
elements may be computed from the storage that was there before. It ends with the first element that
cannot be computed.
-/
namespace Emission

variable {Body : Type}

/-- An array of bytes. -/
def Action.bytes (ns : List Nat) : Data :=
  .ofList (.integer .byte) (ns.map fun n => .integer .byte (BitVec.ofNat 8 n))

/-- The value on the next buffer of a state. -/
def Store.fresh (s : Store Body) (k : Kind) (l : Layout) : Value :=
  ⟨.plain (.cell k), some l, some ⟨s.slots.size⟩⟩

namespace Store

variable (s : Store Body)

theorem fresh_backing {l : Layout} (data : Data) (hl : l.Obtainable)
    (hroom : l.memorySize ≤ data.size) (hfits : data.size < cellLimit) :
    (s.withBuffer data).Backing (s.fresh data.kind l) l ⟨s.buffers.size, 0⟩ data where
  layout := rfl
  obtainable := hl
  handle := ⟨⟨s.slots.size⟩, rfl, Array.getElem?_push_size⟩
  cells := Array.getElem?_push_size
  base := rfl
  room := by simpa using hroom
  fits := hfits

/-- Data with as many elements as its shape back a new value in the packed layout of the shape. -/
theorem fresh_backing_packed {ns : List Nat} {l : Layout} (hl : Layout.ofSizes ns = .ok l) {data : Data}
    (hsize : data.size = ns.prod) (hfits : data.size < cellLimit) :
    (s.withBuffer data).Backing (s.fresh data.kind l) l ⟨s.buffers.size, 0⟩ data := by
  have hvolume : l.memorySize = data.size := (Layout.packed_volume hl).2.trans hsize.symm
  exact s.fresh_backing data (Layout.obtainable_ofSizes hl) (Nat.le_of_eq hvolume) hfits

theorem modify_withBuffer (data : Data) (f : Data → Data) :
    { s.withBuffer data with
        buffers := (s.withBuffer data).buffers.modify s.buffers.size f } =
      s.withBuffer (f data) := by
  have h : (s.buffers.push data).modify s.buffers.size f = s.buffers.push (f data) := by
    refine Array.ext_getElem? fun i => ?_
    rw [Array.getElem?_modify, Array.getElem?_push, Array.getElem?_push]
    by_cases hi : i = s.buffers.size
    · simp [hi]
    · simp [hi, Ne.symm hi]
  simp only [withBuffer, h]

end Store

namespace Action

open Store

variable (s : Store Body)

theorem exec_newSlot (x : Slot) : (newSlot x : Action Body Handle).exec s =
    if s.slots.size < handleLimit then (.ok ⟨s.slots.size⟩, { s with slots := s.slots.push x })
    else (.error (.backend .handlesExhausted), s) := by
  unfold newSlot
  rw [exec_bind, exec_get]
  by_cases h : s.slots.size < handleLimit
  · simp only [h, if_true, exec_bind, exec_modify, exec_pure]
  · simp only [h, if_false, exec_throw]

theorem exec_newBuffer (data : Data) (l : Layout) : (newBuffer data l : Action Body Value).exec s =
    if s.slots.size < handleLimit then (.ok (s.fresh data.kind l), s.withBuffer data)
    else (.error (.backend .handlesExhausted), { s with buffers := s.buffers.push data }) := by
  unfold newBuffer
  simp only [exec_bind, exec_get, exec_modify, exec_newSlot]
  by_cases h : s.slots.size < handleLimit
  · simp only [h, if_true, exec_pure]
    rfl
  · simp only [h, if_false]

theorem exec_newStorage (k : Kind) {l : Layout} (hl : l.memorySize < cellLimit) :
    (newStorage (.plain (.cell k)) l : Action Body Value).exec s =
      if s.slots.size < handleLimit then
        (.ok (s.fresh k l), s.withBuffer (.zeros k l.memorySize))
      else (.error (.backend .handlesExhausted),
        { s with buffers := s.buffers.push (.zeros k l.memorySize) }) := by
  unfold newStorage
  simp only [Data.zeroed, ElementType.storable, reserve_of_lt hl, ok_bind, pure_eq_ok, exec_bind,
    exec_lift]
  exact exec_newBuffer s (.zeros k l.memorySize) l

/-- Without room for its elements nothing is made. -/
theorem exec_newStorage_without_room (k : Kind) {l : Layout} (hl : ¬ l.memorySize < cellLimit) :
    (newStorage (.plain (.cell k)) l : Action Body Value).exec s =
      (.error (.panic (.allocation (l.memorySize * k.sizeInBytes))), s) := by
  unfold newStorage
  simp only [Data.zeroed, ElementType.storable, reserve_of_not_lt hl, ok_bind, error_bind, exec_bind,
    exec_lift]

/-- A cell within a handle's buffer is replaced, and nothing else. -/
theorem exec_writeCell {h : Handle} {slot : Slot} {data : Data} {i : Nat} (d : Datum)
    (hslot : s.slot h = .ok slot) (hdata : s.buffers[slot.buffer]? = some data)
    (hi : i < data.size) : (writeCell h i d).exec s =
      (.ok (), { s with buffers := s.buffers.modify slot.buffer (·.set i d) }) := by
  have hbuffer : s.buffer h = .ok data := (buffer_eq_ok_iff hslot).mpr hdata
  unfold writeCell
  simp only [exec_bind, exec_reading, hbuffer, ok_bind, pure_eq_ok, hi, if_true, hslot, exec_modify]

/-- Writing an element of the newest value sets the cell at its address. -/
theorem exec_write_fresh {l : Layout} {data : Data} {c : List Nat} (d : Datum)
    (hl : l.Obtainable) (hroom : l.memorySize ≤ data.size) (hfits : data.size < cellLimit)
    (hc : l.InRange c) : (write (s.fresh data.kind l) c d).exec (s.withBuffer data) =
      (.ok (), s.withBuffer (data.set (l.address c) d)) := by
  have b := s.fresh_backing data hl hroom hfits
  have hlt : l.address c < data.size := by simpa using b.address_lt hc
  obtain ⟨h, hslot, -, hlocate⟩ := b.locate_eq hc
  rw [Nat.zero_add] at hlocate
  unfold write
  rw [exec_bind, exec_reading, hlocate]
  simp only [exec_writeCell _ d hslot b.cells hlt, modify_withBuffer]

/-- A fill from position `j` on sets one cell after the other to the elements that are computed, up to
the first that cannot be. The cells before `j` stay. -/
theorem exec_fill {l : Layout} (hl : l.Obtainable) {f : Store Body → List Nat → Except Failure Datum}
    {g : List Nat → Except Failure Datum} (cs : List (List Nat)) (j : Nat) (data : Data)
    (hf : ∀ s', s.Grows s' → ∀ c ∈ cs, f s' c = g c) (hroom : l.memorySize ≤ data.size)
    (hfits : data.size < cellLimit) (hin : ∀ c ∈ cs, l.InRange c)
    (hj : cs.map l.address = List.range' j cs.length) :
    ∃ data', (cs.foldlM (fun _ c => do write (s.fresh data.kind l) c (← reading (f · c))) ()).exec
        (s.withBuffer data) = ((cs.mapM g).map fun _ => (), s.withBuffer data') ∧
      data'.kind = data.kind ∧ data'.size = data.size ∧ (∀ i < j, data'.get i = data.get i) ∧
      ∀ ds, cs.mapM g = .ok ds →
        ∀ i (hi : i < ds.length), data'.get (j + i) = ds[i].convert data.kind := by
  induction cs generalizing j data with
  | nil =>
    refine ⟨data, rfl, rfl, rfl, fun _ _ => rfl, fun ds hds i hi => ?_⟩
    obtain rfl : [] = ds := Except.ok.inj hds
    simp at hi
  | cons c cs ih =>
    obtain ⟨hc, hin⟩ := List.forall_mem_cons.mp hin
    simp only [List.map_cons, List.length_cons, List.range'_succ, List.cons.injEq] at hj
    have hfc : f (s.withBuffer data) c = g c :=
      hf _ (s.grows_withBuffer data) c List.mem_cons_self
    rw [List.foldlM_cons, List.mapM_cons, exec_bind, exec_bind, exec_reading, hfc]
    cases hg : g c with
    | error e =>
      refine ⟨data, rfl, rfl, rfl, fun _ _ => rfl, fun ds hds => ?_⟩
      simp at hds
    | ok d =>
      simp only [exec_write_fresh s d hl hroom hfits hc, hj.1]
      obtain ⟨data', hexec, hkind, hsize, hkeep, hfill⟩ := ih (j + 1) (data.set j d)
        (fun s' hs' x hx => hf s' hs' x (List.mem_cons_of_mem c hx)) (by simpa using hroom)
        (by simpa using hfits) hin hj.2
      have hlt : j < data.size := by
        have h := hc.address_lt hl.wellFormed
        rw [hj.1] at h
        omega
      -- the rest starts behind cell `j`, so it keeps what is written there now
      refine ⟨data', ?_, hkind, by simpa using hsize, fun i hi => ?_, fun ds hds i hi => ?_⟩
      · rw [Data.kind_set] at hexec
        rw [hexec]
        cases cs.mapM g <;> rfl
      · rw [hkeep i (by omega), Data.get_set_ne (by omega)]
      · obtain ⟨d', hd, hds⟩ := bind_eq_ok_iff.mp hds
        obtain ⟨ds, hrest, hds⟩ := bind_eq_ok_iff.mp hds
        obtain rfl := Except.ok.inj hd
        obtain rfl := Except.ok.inj hds
        cases i with
        | zero => rw [Nat.add_zero, hkeep j (by omega), Data.get_set_self hlt]; rfl
        | succ i =>
          have h := hfill ds hrest i (by simpa using hi)
          rw [Data.kind_set, Nat.add_right_comm] at h
          exact h

/-- While a handle is left, a tabulation in a shape for whose elements there is room gives a value on the
next buffer that holds them all, or fails as the first of them that cannot be computed. -/
theorem exec_tabulate {k : Kind} {shape l : Layout} (hshape : shape.WellFormed)
    (hl : Layout.ofSizes shape.logicalSize = .ok l) (hfits : shape.numElements < cellLimit)
    {f : Store Body → List Nat → Except Failure Datum} {g : List Nat → Except Failure Datum}
    (hf : ∀ s', s.Grows s' → ∀ c ∈ shape.coordinates, f s' c = g c)
    (hroom : s.slots.size < handleLimit) :
    ∃ data, (tabulate (.plain (.cell k)) shape f).exec s =
        ((shape.coordinates.mapM g).map fun _ => s.fresh k l, s.withBuffer data) ∧
      ∀ ds, shape.coordinates.mapM g = .ok ds → data = .ofList k ds := by
  have hob := Layout.obtainable_ofSizes hl
  have hsize : l.memorySize = shape.numElements := by
    rw [(Layout.packed_volume hl).2, Layout.prod_logicalSize hshape]
  obtain ⟨hwithin, haddress⟩ := Layout.packed_addresses hshape hl
  have hmemory : l.memorySize < cellLimit := hsize ▸ hfits
  have hzeros : (Data.zeros k l.memorySize).size < cellLimit := by rwa [Data.size_zeros]
  obtain ⟨data, hexec, hkind, hlength, -, hfill⟩ := exec_fill s hob shape.coordinates 0
    (.zeros k l.memorySize) hf (by simp) hzeros hwithin haddress
  refine ⟨data, ?_, fun ds hds => ?_⟩
  · unfold tabulate
    rw [exec_bind, exec_lift, hl]
    simp only [exec_bind, exec_newStorage s k hmemory, hroom, if_true, Layout.foldCoordinatesM_eq]
    have hfresh : s.fresh (Data.zeros k l.memorySize).kind l = s.fresh k l := rfl
    rw [hfresh] at hexec
    rw [hexec]
    cases shape.coordinates.mapM g <;> rfl
  · have hlen : ds.length = shape.coordinates.length := length_of_mapM_eq_ok hds
    refine Data.ext_get hkind ?_ fun i hi => ?_
    · rw [hlength, Data.size_zeros, hsize, Data.size_ofList, hlen,
        Layout.length_coordinates hshape]
    · rw [Data.size_ofList] at hi
      have h := hfill ds hds i hi
      rw [Nat.zero_add] at h
      rw [h, Data.get_ofList hi]
      rfl

end Action

end Emission
