import Emission.Proofs.Datum
import Emission.Proofs.Layout.Packing
import Emission.Proofs.Store.Growth
import Emission.Store.Read

/-!
Values with storage behind them. A value is backed when its handle leads to a slot whose buffer has
its element type and room for its layout. Its elements are then the cells at the layout's addresses
from the slot on, so every one of them can be fetched, and the whole value can be read.
-/
namespace Emission

/-- The elements that a layout shows of an array from a position on, in logical order. -/
def Data.view (a : Data) (start : Nat) (l : Layout) : Data :=
  ofList a.kind (l.coordinates.map fun c => a.get (start + l.address c))

theorem Data.toList_view (a : Data) (start : Nat) (l : Layout) :
    (a.view start l).toList = l.coordinates.map fun c => a.get (start + l.address c) := by
  refine toList_ofList fun d hd => ?_
  obtain ⟨c, -, rfl⟩ := List.mem_map.mp hd
  exact kind_get a _

theorem Data.size_view {l : Layout} (hl : l.WellFormed) (a : Data) (start : Nat) :
    (a.view start l).size = l.numElements := by
  rw [view, size_ofList, List.length_map, Layout.length_coordinates hl]

theorem Data.get_view (a : Data) (start : Nat) (l : Layout) {i : Nat}
    (hi : i < l.coordinates.length) :
    (a.view start l).get i = a.get (start + l.address l.coordinates[i]) := by
  rw [view, get_ofList (by simpa using hi), List.getElem_map]
  exact convert_of_kind (kind_get a _)

theorem Data.get_view_scalar (b : Data) (start : Nat) : (b.view start .scalar).get 0 = b.get start :=
  Data.get_view b start .scalar (by rw [Layout.coordinates_scalar]; exact Nat.one_pos)

/-- Positions in what memory holds are words. -/
theorem lt_wordLimit_of_lt_cellLimit {n : Nat} (h : n < cellLimit) : n < wordLimit :=
  Nat.lt_trans h (by decide)

namespace Store

variable {Body : Type}

/-- The storage behind a value: a slot and the buffer in which it lies, which is in memory. -/
structure Backing (s : Store Body) (v : Value) (l : Layout) (slot : Slot) (data : Data) : Prop where
  layout : v.layout? = some l
  obtainable : l.Obtainable
  handle : ∃ h, v.handle? = some h ∧ s.slots[h.index]? = some slot
  cells : s.buffers[slot.buffer]? = some data
  base : v.base = .cell data.kind
  room : slot.start + l.memorySize ≤ data.size
  fits : data.size < cellLimit

def Backed (s : Store Body) (v : Value) : Prop := ∃ l slot data, s.Backing v l slot data

/-- The value is a view of the single cell at a slot. -/
def Points (s : Store Body) (v : Value) (type : ElementType) (slot : Slot) : Prop :=
  ∃ h, v = ⟨type, some .scalar, some h⟩ ∧ s.slots[h.index]? = some slot

variable {s s' : Store Body} {v w : Value} {l : Layout} {slot : Slot} {data : Data}

/-- The place of an element whose coordinates are in range, if it is a word. -/
theorem locate_eq {h : Handle} {c : List Nat} (hl : v.layout? = some l) (hwell : l.WellFormed)
    (hh : v.handle? = some h) (hslot : s.slots[h.index]? = some slot) (hc : l.InRange c) :
    s.locate v c = if slot.start + l.address c < wordLimit then .ok (h, slot.start + l.address c)
      else .error (.panic .sumOverflow) := by
  simp only [locate, Value.handle_eq_ok_iff.mpr hh, slot_eq_ok_iff.mpr hslot,
    Value.layout_eq_ok_iff.mpr hl, hc.entryOffset_eq hwell, ok_bind, pure_eq_ok, throw_eq_error]

/-- The type of a handle points to the kind of its buffer. There are pointers to all of these. -/
theorem typeOf_eq (s : Store Body) (h : Handle) :
    s.typeOf h = (s.buffer h).map fun data => .pointer (.cell data.kind) := by
  unfold typeOf
  cases s.buffer h <;> rfl

namespace Backing

theorem wellFormed (b : s.Backing v l slot data) : l.WellFormed := b.obtainable.wellFormed

theorem mono (b : s.Backing v l slot data) (h : s.Grows s') : s'.Backing v l slot data where
  layout := b.layout
  obtainable := b.obtainable
  handle := by
    obtain ⟨k, hk, hslot⟩ := b.handle
    exact ⟨k, hk, h.slot_some hslot⟩
  cells := h.buffer_some b.cells
  base := b.base
  room := b.room
  fits := b.fits

theorem toBacked (b : s.Backing v l slot data) : s.Backed v := ⟨l, slot, data, b⟩

theorem layout_eq (b : s.Backing v l slot data) : v.layout = .ok l :=
  Value.layout_eq_ok_iff.mpr b.layout

theorem ensureDefined_eq (b : s.Backing v l slot data) : v.ensureDefined = .ok () := by
  obtain ⟨h, hh, -⟩ := b.handle
  simp [Value.ensureDefined, Value.isDefined, hh]

theorem isDefined_eq (b : s.Backing v l slot data) : v.isDefined = true := by
  obtain ⟨h, hh, -⟩ := b.handle
  simp [Value.isDefined, hh]

/-- The handle of a backed value leads to its buffer. -/
theorem exists_handle (b : s.Backing v l slot data) :
    ∃ h, v.handle = .ok h ∧ s.slot h = .ok slot ∧ s.buffer h = .ok data := by
  obtain ⟨h, hh, hslot⟩ := b.handle
  have hs := slot_eq_ok_iff.mpr hslot
  exact ⟨h, Value.handle_eq_ok_iff.mpr hh, hs, (buffer_eq_ok_iff hs).mpr b.cells⟩

theorem kind_eq {l' : Layout} {slot' : Slot} {data' : Data} (b : s.Backing v l slot data)
    (b' : s.Backing w l' slot' data') (hbase : v.base = w.base) : data'.kind = data.kind := by
  have h := b.base.symm.trans (hbase.trans b'.base)
  exact (BaseType.cell.inj h).symm

theorem address_lt (b : s.Backing v l slot data) {c : List Nat} (hc : l.InRange c) :
    slot.start + l.address c < data.size := by
  have hlt := hc.address_lt b.wellFormed
  have hroom := b.room
  omega

/-- Each element has a place in the buffer. -/
theorem locate_eq (b : s.Backing v l slot data) {c : List Nat} (hc : l.InRange c) : ∃ h,
    s.slot h = .ok slot ∧ s.buffer h = .ok data ∧ s.locate v c = .ok (h, slot.start + l.address c) := by
  obtain ⟨h, hh, hslot⟩ := b.handle
  have hs := slot_eq_ok_iff.mpr hslot
  have hword : slot.start + l.address c < wordLimit :=
    Nat.lt_trans (b.address_lt hc) (lt_wordLimit_of_lt_cellLimit b.fits)
  refine ⟨h, hs, (buffer_eq_ok_iff hs).mpr b.cells, ?_⟩
  rw [Store.locate_eq b.layout b.wellFormed hh hslot hc, if_pos hword]

/-- An element of a backed value is the cell at its address. -/
theorem fetch_eq (b : s.Backing v l slot data) {c : List Nat} (hc : l.InRange c) :
    s.fetch v c = .ok (data.get (slot.start + l.address c)) := by
  obtain ⟨h, -, hbuffer, hlocate⟩ := b.locate_eq hc
  simp only [fetch, hlocate, ok_bind, hbuffer, Data.load_of_lt (b.address_lt hc)]

/-- There is room for the elements of a backed value, as there is for its buffer. -/
theorem numElements_lt (b : s.Backing v l slot data) : l.numElements < cellLimit := by
  have hle := b.wellFormed.numElements_le
  have hroom := b.room
  have hfits := b.fits
  omega

end Backing

theorem foldlM_push (f : List Nat → Except Failure Datum) (cs : List (List Nat)) (acc : Array Datum) :
    cs.foldlM (fun acc c => return acc.push (← f c)) acc =
      (cs.mapM f).map fun ds => acc ++ ds.toArray := by
  induction cs generalizing acc with
  | nil => simp [Except.map]
  | cons c cs ih =>
    rw [List.foldlM_cons, List.mapM_cons]
    cases f c with
    | error e => rfl
    | ok d =>
      rw [ok_bind, pure_eq_ok, ok_bind, ih]
      cases cs.mapM f with
      | error e => rfl
      | ok ds => simp [Except.map]

/-- Without room for its elements a value is not read. -/
theorem read_without_room {k : Kind} (hl : v.layout? = some l) (hbase : v.base = .cell k)
    (hroom : ¬ l.numElements < cellLimit) :
    s.read v = .error (.panic (.allocation (l.numElements * k.sizeInBytes))) := by
  simp only [read, Value.layout_eq_ok_iff.mpr hl, ok_bind, hbase, ElementType.storable,
    reserve_of_not_lt hroom, error_bind]

/-- With room for them, reading fetches one element after the other, and fails as the first of them that
cannot be had. -/
theorem read_eq_mapM {k : Kind} (hl : v.layout? = some l) (hbase : v.base = .cell k)
    (hroom : l.numElements < cellLimit) :
    s.read v = (l.coordinates.mapM (s.fetch v)).map (Data.ofList k) := by
  simp only [read, Value.layout_eq_ok_iff.mpr hl, ok_bind, hbase, ElementType.storable,
    reserve_of_lt hroom, Layout.foldCoordinatesM_eq]
  rw [foldlM_push]
  cases l.coordinates.mapM (s.fetch v) with
  | error e => rfl
  | ok ds => simp [Except.map]

/-- What is read are elements that can all be fetched. -/
theorem read_eq_ok (hl : v.layout? = some l) {a : Data} (h : s.read v = .ok a) :
    ∃ (k : Kind) (g : List Nat → Datum), v.base = .cell k ∧ l.numElements < cellLimit ∧
      (∀ c ∈ l.coordinates, s.fetch v c = .ok (g c)) ∧ a = .ofList k (l.coordinates.map g) := by
  cases hbase : v.base with
  | void => simp [read, Value.layout_eq_ok_iff.mpr hl, hbase, ElementType.storable] at h
  | cell k =>
    have hroom : l.numElements < cellLimit := by
      by_contra hroom
      cases (read_without_room hl hbase hroom).symm.trans h
    rw [read_eq_mapM hl hbase hroom] at h
    cases hds : l.coordinates.mapM (s.fetch v) with
    | error e => simp [hds, Except.map] at h
    | ok ds =>
      rw [hds] at h
      obtain ⟨g, hg, rfl⟩ := exists_map_of_mapM_eq_ok hds
      exact ⟨k, g, rfl, hroom, hg, (Except.ok.inj h).symm⟩

/-- A backed value reads as what its layout shows of its buffer. -/
theorem Backing.read_eq (b : s.Backing v l slot data) :
    s.read v = .ok (data.view slot.start l) := by
  have hfetch : ∀ c ∈ l.coordinates, s.fetch v c = .ok (data.get (slot.start + l.address c)) :=
    fun c hc => b.fetch_eq ((Layout.mem_coordinates b.wellFormed).mp hc)
  rw [read_eq_mapM b.layout b.base b.numElements_lt, mapM_eq_ok hfetch]
  rfl

/-- Reading a backed value never fails, and gives as many elements of its base type as its layout
has. The type of its handle points to that type. -/
theorem Backed.read (b : s.Backed v) : ∃ l k data h, v.layout? = some l ∧ v.base = .cell k ∧
    s.read v = .ok data ∧ data.kind = k ∧ data.size = l.numElements ∧ v.handle? = some h ∧
    s.typeOf h = .ok (.pointer (.cell k)) := by
  obtain ⟨l, slot, data, b⟩ := b
  obtain ⟨h, hhandle, hslot⟩ := b.handle
  refine ⟨l, data.kind, _, h, b.layout, b.base, b.read_eq, rfl,
    Data.size_view b.wellFormed data slot.start, hhandle, ?_⟩
  rw [typeOf_eq, (buffer_eq_ok_iff (slot_eq_ok_iff.mpr hslot)).mpr b.cells]
  rfl

theorem Backed.mono (b : s.Backed v) (h : s.Extends s') : s'.Backed v := by
  obtain ⟨l, slot, data, b⟩ := b
  obtain ⟨k, hk, hslot⟩ := b.handle
  obtain ⟨data', hbuffer, hkind, hsize⟩ := h.buffers slot.buffer data b.cells
  exact ⟨l, slot, data', {
    layout := b.layout
    obtainable := b.obtainable
    handle := ⟨k, hk, h.slots k.index slot hslot⟩
    cells := hbuffer
    base := by rw [b.base, hkind]
    room := by rw [hsize]; exact b.room
    fits := by rw [hsize]; exact b.fits }⟩

/-- A view of a cell of a backed value is backed. -/
theorem Points.backing {type : ElementType} {i : Nat} (hw : s.Points w type ⟨slot.buffer, i⟩)
    (hv : s.Backing v l slot data) (hbase : type.base = v.base) (hi : i < data.size) :
    s.Backing w .scalar ⟨slot.buffer, i⟩ data := by
  obtain ⟨h, rfl, hslot⟩ := hw
  exact {
    layout := rfl
    obtainable := Layout.obtainable_scalar
    handle := ⟨h, rfl, hslot⟩
    cells := hv.cells
    base := hbase.trans hv.base
    room := hi
    fits := hv.fits }

end Store

end Emission
