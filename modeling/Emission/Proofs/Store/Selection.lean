import Emission.Proofs.Store.Copying
import Emission.Proofs.Store.Indexing

/-!
Selecting an element and storing into it. A view of an element reads as that element, and a single
element copied into the view replaces it. Since different coordinates have different addresses, no
other element changes, and neither does padding or any other buffer.
-/
namespace Emission

variable {Body : Type}

/-- While all positions of a layout are below the bound of a type, addresses can be computed in it. -/
theorem IntKind.reaches_of_lt {k : IntKind} {l : Layout} {start length : Nat} {c : List Nat}
    (hl : l.WellFormed) (hin : l.InRange c) (hmemory : l.memorySize < k.bound)
    (hroom : start + l.memorySize ≤ length) :
    l.address c % 2 ^ k.width = l.address c ∧ k.Reaches l start length (l.address c) := by
  have hlt := hin.address_lt hl
  have hle := k.bound_le.1
  have hmod : l.address c % 2 ^ k.width = l.address c := Nat.mod_eq_of_lt (by omega)
  refine ⟨hmod, fun d hd => ⟨Or.inr ?_, Or.inr ?_⟩, by omega, by omega⟩
  · have hextent := hin.extent_le hl hd
    have hplace := hin.place_lt hl hd
    unfold Dimension.place at hplace
    omega
  · have hstride : d.stride ≤ l.memorySize :=
      Layout.trailing_le (Layout.extent_pos hl hin) _
        (hl.strides ▸ List.mem_map.mpr ⟨d, hd, rfl⟩)
    omega

/-- A cell that is set at an address shows at the position of the coordinates, and nowhere else. -/
theorem Data.view_set {a : Data} {start : Nat} {l : Layout} {c : List Nat} {p : Nat}
    (hl : l.WellFormed) (hroom : start + l.memorySize ≤ a.size)
    (hp : l.coordinates[p]? = some c) (d : Datum) :
    (a.set (start + l.address c) d).view start l = (a.view start l).set p d := by
  obtain ⟨hplt, rfl⟩ := List.getElem?_eq_some_iff.mp hp
  have hin := (Layout.coordinates_spec hl).1
  refine ext_get rfl (by rw [size_set, size_view hl, size_view hl]) fun i hi => ?_
  have hi' : i < l.coordinates.length := by
    rwa [size_set, size_view hl, ← Layout.length_coordinates hl] at hi
  rw [get_view _ start l hi']
  by_cases hip : p = i
  · subst hip
    have hlt := (hin _ (List.getElem_mem hplt)).address_lt hl
    rw [get_set_self (by omega), get_set_self (by rwa [size_set] at hi)]
    rfl
  · have hne : start + l.address l.coordinates[p] ≠ start + l.address l.coordinates[i] := by
      intro heq
      have hsame := Layout.address_inj hl (hin _ (List.getElem_mem hplt))
        (hin _ (List.getElem_mem hi')) (Nat.add_left_cancel heq)
      rw [← Layout.position_getElem hl p hplt, hsame, Layout.position_getElem hl i hi'] at hip
      exact hip rfl
    rw [get_set_ne hne, get_set_ne hip, get_view a start l hi']

namespace Store

variable {s : Store Body} {v x w : Value} {l : Layout} {slot slot' : Slot} {data data' : Data}

theorem Backing.withCell (hv : s.Backing v l slot data) (i : Nat) (d : Datum) :
    (s.withCell slot.buffer i d).Backing v l slot (data.set i d) where
  layout := hv.layout
  obtainable := hv.obtainable
  handle := hv.handle
  cells := (getElem?_withCell hv.cells ..).trans (by rw [if_pos rfl])
  base := hv.base
  room := by rw [Data.size_set]; exact hv.room
  fits := by rw [Data.size_set]; exact hv.fits

theorem Backing.read_scalar (hx : s.Backing x .scalar slot data) :
    s.read x = .ok (.ofList data.kind [data.get slot.start]) :=
  hx.read_eq

end Store

namespace Action

open Store

variable {s : Store Body} {v x w : Value} {l : Layout} {slot slot' : Slot} {data data' : Data}

/-- A copy of a single element sets one cell. -/
theorem copy_scalar_exec (hx : s.Backing x .scalar slot data)
    (hw : s.Backing w .scalar slot' data') (hbase : x.base = w.base) :
    (copy x w).exec s = (.ok (), s.withCell slot'.buffer slot'.start (data.get slot.start)) := by
  obtain ⟨a, hexec, hcopied⟩ := exec_copy hx hw hbase (Nat.le_refl _)
  have hlt : slot'.start < data'.size := hw.room
  have hkind : (data.get slot.start).kind = data'.kind :=
    (Data.kind_get data _).trans (hw.kind_eq hx hbase.symm)
  have hset : a = data'.set slot'.start (data.get slot.start) := by
    refine Data.ext_get hcopied.kind (by rw [hcopied.size, Data.size_set]) fun j _ => ?_
    by_cases hj : j = slot'.start
    · rw [hj, Data.get_set_self hlt, Data.convert_of_kind hkind]
      exact (hcopied.copied 0 Nat.zero_lt_one).trans (by rw [Nat.zero_mod, Nat.add_zero])
    · rw [Data.get_set_ne (Ne.symm hj), hcopied.rest j]
      have hsize : Layout.scalar.memorySize = 1 := rfl
      omega
  rw [hexec, hset, withContents_set hw.cells]

/-- The element of a vector is the view of the value at one coordinate. -/
theorem elementAt_exec {v : Vector} {i : Scalar} {s' : Store Body}
    (hexec : (offsetAt v.value [i]).exec s = (.ok w, s')) (hw : w.rank? = some 0) :
    ∃ a, a.value = w ∧ (elementAt v i).exec s = (.ok a, s') := by
  refine ⟨⟨w, hw⟩, rfl, ?_⟩
  rw [elementAt, exec_bind, hexec]
  simp only [Scalar.ofValue_eq hw, exec_lift]

/-- The law of selecting and storing. A view at coordinates reads as the element at their position, and
what is copied into it replaces this element alone: one cell of an old buffer is set. The element of a vector
is such a view. -/
theorem select_store {k : IntKind} {coordinates : List Scalar} {c : List Nat}
    (hv : s.Backing v l slot data) (hin : l.InRange c) (hc : s.Indexes k coordinates c)
    (hmemory : l.memorySize < k.bound)
    (hroom : ((offsetAt v coordinates).exec s).2.slots.size < handleLimit) :
    slot.buffer < s.buffers.size ∧
    ∃ p xs w s', l.coordinates[p]? = some c ∧ s.read v = .ok xs ∧
      (offsetAt v coordinates).exec s = (.ok w, s') ∧ s.Grows s' ∧ s'.read v = .ok xs ∧
      w.rank? = some 0 ∧ s'.read w = .ok (.ofList xs.kind [xs.get p]) ∧
      (∀ (row : Vector) i, row.value = v → coordinates = [i] →
        ∃ a, a.value = w ∧ (elementAt row i).exec s = (.ok a, s')) ∧
      ∀ x, s'.Backed x → x.rank? = some 0 → x.base = v.base →
        ∃ y, y.kind = xs.kind ∧ s'.read x = .ok (.ofList xs.kind [y]) ∧
          (copy x w).exec s' = (.ok (), s'.withCell slot.buffer (slot.start + l.address c) y) ∧
          (s'.withCell slot.buffer (slot.start + l.address c) y).read v = .ok (xs.set p y) := by
  have hp := Layout.getElem?_position hv.wellFormed hin
  obtain ⟨hmod, hreaches⟩ := IntKind.reaches_of_lt hv.wellFormed hin hmemory hv.room
  have hlt := hv.address_lt hin
  rcases (offsetAt_meets hv hin hc).cases with
    ⟨w, s', hexec, hs', -, hw⟩ | ⟨e, s', hexec, -, hblocked⟩
  · rw [hmod] at hw
    have hv' := hv.mono hs'
    have hw' := hw.backing hv' rfl hlt
    obtain ⟨hplt, hpc⟩ := List.getElem?_eq_some_iff.mp hp
    have hrank : w.rank? = some 0 := by
      obtain ⟨h, rfl, -⟩ := hw
      rfl
    refine ⟨(Array.getElem?_eq_some_iff.mp hv.cells).1, _, _, w, s', hp, hv.read_eq, hexec,
      hs', hv'.read_eq, hrank, ?_, fun row i hrow hi => ?_, fun x hx hrank hbase => ?_⟩
    · rw [hw'.read_scalar, Data.get_view data slot.start l hplt, hpc]
      rfl
    · subst hrow hi
      exact elementAt_exec hexec hrank
    · obtain ⟨lx, slotx, datax, hx⟩ := hx
      obtain rfl : lx = .scalar := by
        have hlx : lx.rank = 0 := by simpa [Value.rank?, hx.layout] using hrank
        exact Layout.eq_scalar_of_isScalar (by
          rw [Layout.isScalar, List.length_eq_zero_iff.mp hlx]
          rfl)
      have hkind : datax.kind = data.kind := hv'.kind_eq hx hbase.symm
      refine ⟨datax.get slotx.start, (Data.kind_get datax _).trans hkind, ?_, ?_, ?_⟩
      · rw [hx.read_scalar, hkind]
        rfl
      · exact copy_scalar_exec hx hw' (hbase.trans (hw'.base.trans hv.base.symm).symm)
      · rw [(hv'.withCell _ _).read_eq, Data.view_set hv.wellFormed hv.room hp]
  · rw [hexec] at hroom
    exact absurd hreaches (hblocked.resolve_left (Nat.not_le_of_lt hroom))

/-- A padded square with its axes swapped, one cell into its buffer. The first cell of the buffer is
stored at its coordinates (1, 0). -/
theorem select_store_padded :
    let s : Store Unit := { Store.empty with
      buffers := #[bytes [7, 10, 11, 12, 13, 14, 15], single .int32 1, single .int32 0]
      slots := #[⟨0, 1⟩, ⟨0, 0⟩, ⟨1, 0⟩, ⟨2, 0⟩] }
    let l : Layout := ⟨[⟨2, 2, 0, 3, 1⟩, ⟨2, 3, 1, 1, 0⟩]⟩
    let v : Value := ⟨.plain (.cell (.integer .byte)), some l, some ⟨0⟩⟩
    let x : Value := ⟨.plain (.cell (.integer .byte)), some .scalar, some ⟨1⟩⟩
    ∃ w s', (offsetAt v [scalarAt .int32 2, scalarAt .int32 3]).exec s = (.ok w, s') ∧
      s'.read v = .ok (bytes [11, 14, 12, 15]) ∧ s'.read w = .ok (bytes [12]) ∧
      ∃ s'', (copy x w).exec s' = (.ok (), s'') ∧ s''.read v = .ok (bytes [11, 14, 7, 15]) := by
  intro s l v x
  have hv : s.Backing v l ⟨0, 1⟩ (bytes [7, 10, 11, 12, 13, 14, 15]) := {
    layout := rfl
    obtainable := ⟨.parts [2, 2] [2, 3] [0, 1] [1, 0], rfl⟩
    handle := ⟨⟨0⟩, rfl, rfl⟩
    cells := rfl
    base := rfl
    room := by decide
    fits := by decide }
  have hx : s.Backing x .scalar ⟨0, 0⟩ (bytes [7, 10, 11, 12, 13, 14, 15]) := {
    layout := rfl
    obtainable := Layout.obtainable_scalar
    handle := ⟨⟨1⟩, rfl, rfl⟩
    cells := rfl
    base := rfl
    room := by decide
    fits := by decide }
  have hc : s.Indexes .int32 [scalarAt .int32 2, scalarAt .int32 3] [1, 0] :=
    .cons ⟨_, holds_single rfl rfl, rfl⟩ (.cons ⟨_, holds_single rfl rfl, rfl⟩ .nil)
  obtain ⟨-, p, xs, w, s', hp, hread, hexec, hs', hread', -, hreadw, -, hstore⟩ :=
    select_store hv (.cons (by decide) (.cons (by decide) .nil)) hc (by decide)
      (by decide +kernel)
  have hxs : s.read v = .ok (bytes [11, 14, 12, 15]) := rfl
  obtain rfl := Except.ok.inj (hxs.symm.trans hread)
  obtain rfl : p = 2 := by
    have hlt := (List.getElem?_eq_some_iff.mp hp).1
    have hfour : l.coordinates = [[0, 0], [0, 1], [1, 0], [1, 1]] := rfl
    rw [hfour] at hp hlt
    rcases p with _ | _ | _ | _ | p <;> simp at hp hlt ⊢
  have hx' := hx.mono hs'
  obtain ⟨y, hy, hyread, hcopy, hresult⟩ := hstore x hx'.toBacked rfl rfl
  have hseven : y = .integer .byte 7 := by
    have hdata := Except.ok.inj (hyread.symm.trans hx'.read_scalar)
    calc y = (Data.ofList (.integer .byte) [y]).get 0 := by
          rw [Data.get_ofList Nat.zero_lt_one]
          exact (Data.convert_of_kind hy).symm
      _ = .integer .byte 7 := congrArg (Data.get · 0) hdata
  subst hseven
  exact ⟨w, s', hexec, hread', hreadw, _, hcopy, hresult⟩

end Action

end Emission
