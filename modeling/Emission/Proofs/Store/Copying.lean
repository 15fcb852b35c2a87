import Emission.Proofs.Store.Tabulation
import Emission.Store.Copy

/-!
Copying cells. A copy moves one cell after the other, so where the destination starts inside the source it
meets cells that it has already written, and repeats the cells in front of them. It keeps the source's
cells in every other case. Nothing but the destination's cells ever changes, and a copy that is refused
changes nothing at all.
-/
namespace Emission

variable {Body : Type}

namespace Slot

/-- The slot some cells further on. -/
def after (x : Slot) (i : Nat) : Slot := ⟨x.buffer, x.start + i⟩

/-- How far the destination starts behind the source in the same buffer, and zero when it does not. -/
def lag (source destination : Slot) : Nat :=
  if source.buffer = destination.buffer then destination.start - source.start else 0

/-- The `count` cells from the one slot on and those from the other have none in common. -/
def Apart (x y : Slot) (count : Nat) : Prop :=
  x.buffer ≠ y.buffer ∨ x.start + count ≤ y.start ∨ y.start + count ≤ x.start

variable {x y : Slot}

theorem lag_after (x y : Slot) (i : Nat) : (x.after i).lag (y.after i) = x.lag y := by
  simp only [lag, after, Nat.add_sub_add_right]

@[simp] theorem lag_self (x : Slot) : x.lag x = 0 := by
  simp only [lag, if_true, Nat.sub_self]

/-- Cells that lie apart are not met again during a copy. -/
theorem Apart.lag_cases {count : Nat} (h : x.Apart y count) : x.lag y = 0 ∨ count ≤ x.lag y := by
  unfold lag
  split
  case isTrue hbuffer =>
    rcases h with hne | hle | hle
    · exact absurd hbuffer hne
    · exact Or.inr (by omega)
    · exact Or.inl (by omega)
  case isFalse => exact Or.inl rfl

end Slot

/-- What becomes of the destination's array when `count` cells of the source are copied into it. A number
modulo zero is itself, so without a lag every cell comes from its own place. -/
structure Copied (source destination : Slot) (count : Nat) (data data' result : Data) : Prop where
  kind : result.kind = data'.kind
  size : result.size = data'.size
  copied : ∀ i < count, result.get (destination.start + i) =
    data.get (source.start + i % source.lag destination)
  rest : ∀ j, j < destination.start ∨ destination.start + count ≤ j → result.get j = data'.get j

namespace Copied

variable {source destination : Slot} {count : Nat} {data data' result : Data}

theorem zero (source destination : Slot) (data data' : Data) :
    Copied source destination 0 data data' data' where
  kind := rfl
  size := rfl
  copied i hi := absurd hi (Nat.not_lt_zero i)
  rest _ _ := rfl

/-- Once the first cell is copied, the next one of the source is what the second cell of the destination
gets. That is the first cell again when the destination starts one cell behind the source. -/
theorem get_next (hsame : source.buffer = destination.buffer → data = data')
    (hlt : destination.start < data'.size) (i : Nat) :
    (if destination.buffer = source.buffer then
        data.set destination.start (data.get source.start) else data).get
        (source.start + 1 + i % source.lag destination) =
      data.get (source.start + (i + 1) % source.lag destination) := by
  unfold Slot.lag
  by_cases hbuffer : source.buffer = destination.buffer
  · obtain rfl := hsame hbuffer
    rw [if_pos hbuffer, if_pos hbuffer.symm]
    generalize hlag : destination.start - source.start = n
    rcases Nat.eq_zero_or_pos n with rfl | hpos
    · rw [Nat.mod_zero, Nat.mod_zero, Data.get_set_ne (by omega), Nat.add_assoc, Nat.add_comm 1]
    · have hi := Nat.mod_lt i hpos
      rw [← Nat.mod_add_mod i n 1]
      by_cases hwrap : i % n + 1 = n
      · have hplace : source.start + 1 + i % n = destination.start := by omega
        rw [hplace, Data.get_set_self hlt, hwrap, Nat.mod_self, Nat.add_zero]
        exact Data.convert_of_kind (Data.kind_get data _)
      · have hnext : i % n + 1 < n := by omega
        rw [Data.get_set_ne (by omega), Nat.mod_eq_of_lt hnext, Nat.add_assoc, Nat.add_comm 1]
  · rw [if_neg hbuffer, if_neg (Ne.symm hbuffer), Nat.mod_zero, Nat.mod_zero, Nat.add_assoc,
      Nat.add_comm 1]

/-- A copy is that of its first cell and a copy of the cells after it. -/
theorem cons (hsame : source.buffer = destination.buffer → data = data')
    (hkind : data.kind = data'.kind) (hlt : destination.start < data'.size)
    (h : Copied (source.after 1) (destination.after 1) count
      (if destination.buffer = source.buffer then
        data.set destination.start (data.get source.start) else data)
      (data'.set destination.start (data.get source.start)) result) :
    Copied source destination (count + 1) data data' result where
  kind := h.kind
  size := h.size.trans (Data.size_set ..)
  copied i hi := by
    have hfirst : (data.get source.start).kind = data'.kind := (Data.kind_get data _).trans hkind
    cases i with
    | zero =>
      rw [Nat.zero_mod, Nat.add_zero, Nat.add_zero, h.rest _ (Or.inl (Nat.lt_succ_self _)),
        Data.get_set_self hlt, Data.convert_of_kind hfirst]
    | succ i =>
      have hcopied := h.copied i (Nat.lt_of_succ_lt_succ hi)
      rw [Slot.lag_after] at hcopied
      rw [← get_next hsame hlt i, Nat.add_comm i 1, ← Nat.add_assoc]
      exact hcopied
  rest j hj := by
    have hout : j < destination.start + 1 ∨ destination.start + 1 + count ≤ j := by omega
    rw [h.rest j hout, Data.get_set_ne (by omega)]

/-- A copy keeps the source's cells exactly when these repeat themselves with the lag. -/
theorem keeps_iff (h : Copied source destination count data data' result) :
    (∀ i < count, result.get (destination.start + i) = data.get (source.start + i)) ↔
      ∀ i, i + source.lag destination < count →
        data.get (source.start + (i + source.lag destination)) = data.get (source.start + i) := by
  constructor
  · intro hkeep i hi
    rw [← hkeep _ hi, ← hkeep i (by omega), h.copied _ hi, h.copied i (by omega), Nat.add_mod_right]
  · intro hrepeat i hi
    rw [h.copied i hi]
    rcases Nat.eq_zero_or_pos (source.lag destination) with hzero | hpos
    · rw [hzero, Nat.mod_zero]
    · -- one lag back at a time, down to the first cells, which are never overwritten
      induction i using Nat.strongRecOn with
      | ind i ih =>
        by_cases hlt : i < source.lag destination
        · rw [Nat.mod_eq_of_lt hlt]
        · have hback := hrepeat (i - source.lag destination) (by omega)
          have hprev := ih (i - source.lag destination) (by omega) (by omega)
          rw [← Nat.mod_eq_sub_mod (by omega)] at hprev
          rw [hprev, ← hback, Nat.sub_add_cancel (by omega)]

/-- Nothing is lost when the cells lie apart or are the same. -/
theorem keeps (h : Copied source destination count data data' result)
    (hplace : source.Apart destination count ∨ source = destination) :
    ∀ i < count, result.get (destination.start + i) = data.get (source.start + i) := by
  have hlag : source.lag destination = 0 ∨ count ≤ source.lag destination := by
    rcases hplace with hapart | rfl
    · exact hapart.lag_cases
    · exact Or.inl source.lag_self
  refine h.keeps_iff.mpr fun i hi => ?_
  rcases hlag with hzero | hle
  · rw [hzero, Nat.add_zero]
  · omega

end Copied

/-- What a layout shows of an array is given by the cells that it allocates. -/
theorem Data.view_congr {a b : Data} {start start' : Nat} {l : Layout} (hl : l.WellFormed)
    (hkind : a.kind = b.kind) (h : ∀ i < l.memorySize, a.get (start + i) = b.get (start' + i)) :
    a.view start l = b.view start' l := by
  rw [view, view, hkind]
  congr 1
  refine List.map_congr_left fun c hc => h _ ?_
  exact ((Layout.mem_coordinates hl).mp hc).address_lt hl

namespace Store

/-- The state with another array in the place of one buffer. -/
def withContents (s : Store Body) (buffer : Nat) (a : Data) : Store Body :=
  { s with buffers := s.buffers.setIfInBounds buffer a }

variable {s : Store Body} {v x w : Value} {l l' : Layout} {slot slot' : Slot} {data data' a : Data}

theorem getElem?_withContents {b : Nat} (hb : s.buffers[b]? = some data) (a : Data) :
    (s.withContents b a).buffers[b]? = some a :=
  Array.getElem?_setIfInBounds_self_of_lt (Array.getElem?_eq_some_iff.mp hb).1

theorem withContents_self {b : Nat} (hb : s.buffers[b]? = some data) : s.withContents b data = s := by
  have hbuffers : s.buffers.setIfInBounds b data = s.buffers := by
    refine Array.ext_getElem? fun i => ?_
    by_cases hi : b = i
    · rw [← hi, hb]
      exact getElem?_withContents hb data
    · exact Array.getElem?_setIfInBounds_ne hi
  simp only [withContents, hbuffers]

/-- A cell that is set in a buffer is lost with the buffer's contents. -/
theorem withContents_withCell (s : Store Body) (b i : Nat) (d : Datum) (a : Data) :
    (s.withCell b i d).withContents b a = s.withContents b a := by
  have hbuffers : (s.buffers.modify b (·.set i d)).setIfInBounds b a = s.buffers.setIfInBounds b a := by
    refine Array.ext_getElem? fun j => ?_
    by_cases hj : b = j
    · simp only [hj, Array.getElem?_setIfInBounds_self, Array.size_modify]
    · rw [Array.getElem?_setIfInBounds_ne hj, Array.getElem?_setIfInBounds_ne hj,
        Array.getElem?_modify, if_neg hj]
  simp only [withContents, withCell, hbuffers]

theorem withContents_set {b : Nat} (hb : s.buffers[b]? = some data) (i : Nat) (d : Datum) :
    s.withContents b (data.set i d) = s.withCell b i d := by
  have hcell := getElem?_withCell hb b i d
  rw [if_pos rfl] at hcell
  rw [← withContents_withCell s b i d, withContents_self hcell]

theorem Backing.withContents (hw : s.Backing w l slot data) (hkind : a.kind = data.kind)
    (hsize : a.size = data.size) : (s.withContents slot.buffer a).Backing w l slot a where
  layout := hw.layout
  obtainable := hw.obtainable
  handle := hw.handle
  cells := getElem?_withContents hw.cells a
  base := by rw [hkind]; exact hw.base
  room := by rw [hsize]; exact hw.room
  fits := by rw [hsize]; exact hw.fits

end Store

namespace Action

open Store

variable {s : Store Body} {x w : Value} {l l' : Layout} {slot slot' : Slot} {data data' : Data}

/-- The loop of a copy never fails within both arrays, and copies its cells. The induction is on the number
of cells that are left; the state that one step leaves is that of a copy from the next cells on. -/
theorem exec_copyCells {h h' : Handle} (count i : Nat) (hslot : s.slot h = .ok slot)
    (hslot' : s.slot h' = .ok slot') (hcells : s.buffers[slot.buffer]? = some data)
    (hcells' : s.buffers[slot'.buffer]? = some data') (hkind : data.kind = data'.kind)
    (hroom : slot.start + i + count ≤ data.size) (hroom' : slot'.start + i + count ≤ data'.size) :
    ∃ a, (copyCells h h' count i).exec s = (.ok (), s.withContents slot'.buffer a) ∧
      Copied (slot.after i) (slot'.after i) count data data' a := by
  induction count generalizing s data data' i with
  | zero => exact ⟨data', by rw [copyCells, exec_pure, withContents_self hcells'], .zero ..⟩
  | succ count ih =>
    have hsame : slot.buffer = slot'.buffer → data = data' := fun hb =>
      Option.some.inj (hcells.symm.trans (hb ▸ hcells'))
    have hbuffer : s.buffer h = .ok data := (buffer_eq_ok_iff hslot).mpr hcells
    have hlt : slot.start + i < data.size := by omega
    have hlt' : slot'.start + i < data'.size := by omega
    let d := data.get (slot.start + i)
    let data₁ := if slot'.buffer = slot.buffer then data.set (slot'.start + i) d else data
    have hdata₁ : data₁.kind = data.kind ∧ data₁.size = data.size := by
      unfold data₁
      split
      · exact ⟨rfl, Data.size_set ..⟩
      · exact ⟨rfl, rfl⟩
    have hcells₁ := getElem?_withCell hcells' slot'.buffer (slot'.start + i) d
    rw [if_pos rfl] at hcells₁
    obtain ⟨a, hexec, hcopied⟩ := ih (s := s.withCell slot'.buffer (slot'.start + i) d) (i + 1) hslot hslot'
      (getElem?_withCell hcells slot'.buffer (slot'.start + i) d) hcells₁ (hdata₁.1.trans hkind)
      (by rw [hdata₁.2]; omega) (by rw [Data.size_set]; omega)
    refine ⟨a, ?_, .cons hsame hkind hlt' hcopied⟩
    unfold copyCells
    simp only [exec_bind, exec_reading, hbuffer, hslot, ok_bind, Data.load_of_lt hlt, hslot',
      exec_writeCell s _ hslot' hcells' hlt']
    rw [← withContents_withCell s slot'.buffer (slot'.start + i) d]
    exact hexec

/-- A copy between values with storage is its loop, once their types and sizes are checked. -/
theorem copy_eq_copyCells (hx : s.Backing x l slot data) (hw : s.Backing w l' slot' data') :
    ∃ h h', s.slot h = .ok slot ∧ s.slot h' = .ok slot' ∧ (copy x w).exec s =
      if x.base ≠ w.base then (.error (.baseMismatch w.base x.base), s)
      else if l'.memorySize < l.memorySize then
        (.error (.invalidSize l.memorySize l'.memorySize), s)
      else (copyCells h h' l.memorySize 0).exec s := by
  obtain ⟨h, hhandle, hslot, -⟩ := hx.exists_handle
  obtain ⟨h', hhandle', hslot', -⟩ := hw.exists_handle
  refine ⟨h, h', hslot, hslot', ?_⟩
  unfold copy
  by_cases hbase : x.base ≠ w.base
  · simp only [exec_bind, exec_lift, hx.ensureDefined_eq, hw.ensureDefined_eq, hbase, if_true,
      exec_throw, ne_eq, not_false_eq_true]
  · by_cases hsize : l'.memorySize < l.memorySize
    · simp only [exec_bind, exec_lift, hx.ensureDefined_eq, hw.ensureDefined_eq, hbase, if_false,
        hx.layout_eq, hw.layout_eq, hsize, if_true, exec_throw]
    · simp only [exec_bind, exec_lift, hx.ensureDefined_eq, hw.ensureDefined_eq, hbase, if_false,
        hx.layout_eq, hw.layout_eq, hsize, hhandle, hhandle', exec_discard, exec_reading, hslot,
        hslot']

theorem exec_copy (hx : s.Backing x l slot data) (hw : s.Backing w l' slot' data')
    (hbase : x.base = w.base) (hsize : l.memorySize ≤ l'.memorySize) :
    ∃ a, (copy x w).exec s = (.ok (), s.withContents slot'.buffer a) ∧
      Copied slot slot' l.memorySize data data' a := by
  obtain ⟨h, h', hslot, hslot', hcopy⟩ := copy_eq_copyCells hx hw
  have hkind := hw.kind_eq hx hbase.symm
  have hroom := hx.room
  have hroom' := hw.room
  rw [hcopy, if_neg (not_not.mpr hbase), if_neg (Nat.not_lt.mpr hsize)]
  exact exec_copyCells l.memorySize 0 hslot hslot' hx.cells hw.cells hkind (by omega) (by omega)

/-- A copy between values with storage that have the same base type and room enough always succeeds. The
destination's cells get those of the source, counted modulo the lag, so they hold the source's old cells
exactly when these repeat themselves with the lag as far as the two overlap. -/
theorem copy_repeats_lag (hx : s.Backing x l slot data) (hw : s.Backing w l' slot' data')
    (hbase : x.base = w.base) (hsize : l.memorySize ≤ l'.memorySize) :
    ∃ a, (copy x w).exec s = (.ok (), s.withContents slot'.buffer a) ∧
      (∀ i < l.memorySize,
        a.get (slot'.start + i) = data.get (slot.start + i % slot.lag slot')) ∧
      ((∀ i < l.memorySize, a.get (slot'.start + i) = data.get (slot.start + i)) ↔
        ∀ i, i + slot.lag slot' < l.memorySize →
          data.get (slot.start + (i + slot.lag slot')) = data.get (slot.start + i)) := by
  obtain ⟨a, hexec, hcopied⟩ := exec_copy hx hw hbase hsize
  exact ⟨a, hexec, hcopied.copied, hcopied.keeps_iff⟩

/-- Three cells copied two cells further on: the third gets the first one again. -/
theorem copy_repeats_lag_two :
    let s : Store Unit :=
      { Store.empty with buffers := #[bytes [1, 2, 3, 4, 5]], slots := #[⟨0, 0⟩, ⟨0, 2⟩] }
    let l : Layout := ⟨[⟨3, 3, 0, 1, 0⟩]⟩
    let x : Value := ⟨.plain (.cell (.integer .byte)), some l, some ⟨0⟩⟩
    let w : Value := ⟨.plain (.cell (.integer .byte)), some l, some ⟨1⟩⟩
    ∃ a, (copy x w).exec s = (.ok (), s.withContents 0 a) ∧
      [a.get 2, a.get 3, a.get 4] = (bytes [1, 2, 1]).toList ∧
      ¬ ∀ i < l.memorySize, a.get (2 + i) = (bytes [1, 2, 3, 4, 5]).get (0 + i) := by
  intro s l x w
  have hx : s.Backing x l ⟨0, 0⟩ (bytes [1, 2, 3, 4, 5]) := {
    layout := rfl
    obtainable := ⟨.sizes [3], rfl⟩
    handle := ⟨⟨0⟩, rfl, rfl⟩
    cells := rfl
    base := rfl
    room := by decide
    fits := by decide }
  have hw : s.Backing w l ⟨0, 2⟩ (bytes [1, 2, 3, 4, 5]) := {
    layout := rfl
    obtainable := ⟨.sizes [3], rfl⟩
    handle := ⟨⟨1⟩, rfl, rfl⟩
    cells := rfl
    base := rfl
    room := by decide
    fits := by decide }
  obtain ⟨a, hexec, hcells, hkeep⟩ := copy_repeats_lag hx hw rfl (Nat.le_refl _)
  refine ⟨a, hexec, ?_, fun h => absurd (hkeep.mp h 0 (by decide)) (by decide)⟩
  rw [hcells 0 (by decide), hcells 1 (by decide), hcells 2 (by decide)]
  rfl

/-- Two cells of a row of three copied one cell further on. The second of them is lost. -/
theorem copy_onto_next_cell :
    let s : Store Unit :=
      { Store.empty with buffers := #[bytes [1, 2, 3]], slots := #[⟨0, 0⟩, ⟨0, 1⟩] }
    let l : Layout := ⟨[⟨2, 2, 0, 1, 0⟩]⟩
    let x : Value := ⟨.plain (.cell (.integer .byte)), some l, some ⟨0⟩⟩
    let w : Value := ⟨.plain (.cell (.integer .byte)), some l, some ⟨1⟩⟩
    s.Backing x l ⟨0, 0⟩ (bytes [1, 2, 3]) ∧ s.Backing w l ⟨0, 1⟩ (bytes [1, 2, 3]) ∧
      x.base = w.base ∧ ∃ a, (copy x w).exec s = (.ok (), s.withContents 0 a) ∧
        [a.get 1, a.get 2] = (bytes [1, 1]).toList ∧
        ¬ ∀ i < l.memorySize, a.get (1 + i) = (bytes [1, 2, 3]).get (0 + i) := by
  intro s l x w
  have hx : s.Backing x l ⟨0, 0⟩ (bytes [1, 2, 3]) := {
    layout := rfl
    obtainable := ⟨.sizes [2], rfl⟩
    handle := ⟨⟨0⟩, rfl, rfl⟩
    cells := rfl
    base := rfl
    room := by decide
    fits := by decide }
  have hw : s.Backing w l ⟨0, 1⟩ (bytes [1, 2, 3]) := {
    layout := rfl
    obtainable := ⟨.sizes [2], rfl⟩
    handle := ⟨⟨1⟩, rfl, rfl⟩
    cells := rfl
    base := rfl
    room := by decide
    fits := by decide }
  obtain ⟨a, hexec, hcopied⟩ := exec_copy hx hw rfl (Nat.le_refl _)
  refine ⟨hx, hw, rfl, a, hexec, ?_, fun h => ?_⟩
  · rw [hcopied.copied 0 (by decide), hcopied.copied 1 (by decide)]
    rfl
  · exact absurd (hcopied.keeps_iff.mp h 0 (by decide)) (by decide)

/-- A copy between values with storage is refused for different base types and for want of room, and for no
other reason, and a refused copy changes nothing. Otherwise it changes the contents of the destination's
buffer alone, and there no cell but the destination's. These hold the source's cells afterwards when the
two lie apart or start at the same cell, so with equal layouts the destination reads as the source did. -/
theorem copy_all_or_nothing (hx : s.Backing x l slot data) (hw : s.Backing w l' slot' data') :
    (((copy x w).exec s).1 = .error (.baseMismatch w.base x.base) ↔ x.base ≠ w.base) ∧
    (((copy x w).exec s).1 = .error (.invalidSize l.memorySize l'.memorySize) ↔
      x.base = w.base ∧ l'.memorySize < l.memorySize) ∧
    ((∃ e, ((copy x w).exec s).1 = .error e) → ((copy x w).exec s).2 = s) ∧
    (x.base = w.base → l.memorySize ≤ l'.memorySize →
      ∃ a, (copy x w).exec s = (.ok (), s.withContents slot'.buffer a) ∧ a.kind = data'.kind ∧
        a.size = data'.size ∧
        (∀ j, j < slot'.start ∨ slot'.start + l.memorySize ≤ j → a.get j = data'.get j) ∧
        (slot.Apart slot' l.memorySize ∨ slot = slot' →
          (∀ i < l.memorySize, a.get (slot'.start + i) = data.get (slot.start + i)) ∧
            (l' = l → (s.withContents slot'.buffer a).read w = s.read x))) := by
  have hok := exec_copy hx hw
  obtain ⟨h, h', -, -, hcopy⟩ := copy_eq_copyCells hx hw
  by_cases hbase : x.base = w.base
  · by_cases hsize : l.memorySize ≤ l'.memorySize
    · obtain ⟨a, hexec, hcopied⟩ := hok hbase hsize
      refine ⟨by simp [hexec, hbase], by simp [hexec, hbase, hsize], by simp [hexec], fun _ _ =>
        ⟨a, hexec, hcopied.kind, hcopied.size, hcopied.rest, fun hplace => ?_⟩⟩
      have hkeep := hcopied.keeps hplace
      refine ⟨hkeep, ?_⟩
      rintro rfl
      have hkind : a.kind = data.kind := hcopied.kind.trans (hx.kind_eq hw hbase)
      rw [(hw.withContents hcopied.kind hcopied.size).read_eq, hx.read_eq,
        Data.view_congr hx.wellFormed hkind hkeep]
    · have hlt := Nat.lt_of_not_le hsize
      rw [if_neg (not_not.mpr hbase), if_pos hlt] at hcopy
      simp [hcopy, hbase, hlt, hsize]
  · rw [if_pos hbase] at hcopy
    simp [hcopy, hbase]

/-- A padded pair copied into the middle of a row of six. -/
theorem copy_all_or_nothing_padded :
    let s : Store Unit := { Store.empty with
      buffers := #[bytes [1, 5, 6, 1], bytes [9, 9, 9, 9, 9, 9]]
      slots := #[⟨0, 0⟩, ⟨1, 1⟩] }
    let l : Layout := ⟨[⟨2, 4, 1, 1, 0⟩]⟩
    let x : Value := ⟨.plain (.cell (.integer .byte)), some l, some ⟨0⟩⟩
    let w : Value := ⟨.plain (.cell (.integer .byte)), some l, some ⟨1⟩⟩
    ∃ a, (copy x w).exec s = (.ok (), s.withContents 1 a) ∧
      [a.get 0, a.get 1, a.get 4, a.get 5] = (bytes [9, 1, 1, 9]).toList ∧
      (s.withContents 1 a).read w = .ok (bytes [5, 6]) := by
  intro s l x w
  have hx : s.Backing x l ⟨0, 0⟩ (bytes [1, 5, 6, 1]) := {
    layout := rfl
    obtainable := ⟨.padded [2] [1], rfl⟩
    handle := ⟨⟨0⟩, rfl, rfl⟩
    cells := rfl
    base := rfl
    room := by decide
    fits := by decide }
  have hw : s.Backing w l ⟨1, 1⟩ (bytes [9, 9, 9, 9, 9, 9]) := {
    layout := rfl
    obtainable := ⟨.padded [2] [1], rfl⟩
    handle := ⟨⟨1⟩, rfl, rfl⟩
    cells := rfl
    base := rfl
    room := by decide
    fits := by decide }
  obtain ⟨-, -, -, hcopy⟩ := copy_all_or_nothing hx hw
  obtain ⟨a, hexec, -, -, hrest, hkeep⟩ := hcopy rfl (Nat.le_refl _)
  obtain ⟨hcells, hread⟩ := hkeep (Or.inl (Or.inl (by decide)))
  refine ⟨a, hexec, ?_, (hread rfl).trans rfl⟩
  rw [hrest 0 (Or.inl (by decide)), hcells 0 (by decide), hcells 3 (by decide),
    hrest 5 (Or.inr (by decide))]
  rfl

end Action

end Emission
