import Emission.Proofs.Saturation
import Emission.Proofs.Store.Elementwise

/-!
Casts of stored values to integers. The elements of a cast are the conversions of what the value reads as,
so they wrap around, and a cast through a kind that is at least as wide reads as the cast at once. Doubles
saturate in 64 bits and wrap below them.
-/
namespace Emission

variable {Body : Type}

theorem Data.toList_convert (k : Kind) (ds : List Datum) :
    (ofList k (ds.map (·.convert k))).toList = ds.map (·.convert k) := by
  refine toList_ofList fun d hd => ?_
  obtain ⟨x, -, rfl⟩ := List.mem_map.mp hd
  exact Datum.kind_convert x k

/-- A cast of a cast. -/
def Action.castVia (v : Value) (wide k : Kind) : Action Body Value := do
  cast (← cast v (.plain (.cell wide))) (.plain (.cell k))

namespace Store

/-- The action succeeds with a value that reads as the data then. -/
def Gives (s : Store Body) (action : Action Body Value) (data : Data) : Prop :=
  ∃ w s', action.exec s = (.ok w, s') ∧ s'.read w = .ok data

variable {s : Store Body} {v : Value} {l : Layout} {slot : Slot} {a : Data}

theorem Yields.gives {action : Action Body Value} {ns : List Nat} {data : Data}
    (h : s.Yields action ns data) : s.Gives action data := by
  obtain ⟨l, -, hexec, hread⟩ := h
  exact ⟨_, _, hexec, hread⟩

theorem Exhausts.failure {action : Action Body Value} (h : s.Exhausts action) :
    (action.exec s).1 = .error (.backend .handlesExhausted) := by
  obtain ⟨data, hexec⟩ := h
  rw [hexec]

/-- What is yielded is backed by all of its buffer. -/
theorem Yields.backing {action : Action Body Value} {ns : List Nat} {data : Data}
    (h : s.Yields action ns data) : ∃ w l, Layout.ofSizes ns = .ok l ∧
      action.exec s = (.ok w, s.withBuffer data) ∧
      (s.withBuffer data).Backing w l ⟨s.buffers.size, 0⟩ data ∧ data.view 0 l = data := by
  obtain ⟨l, hl, hexec, hread⟩ := h
  obtain ⟨k, g, -, hfits, -, hdata⟩ := read_eq_ok (v := s.fresh data.kind l) rfl hread
  have hcount : data.size = l.numElements := by
    rw [hdata, Data.size_ofList, List.length_map,
      Layout.length_coordinates (Layout.ofSizes_wellFormed hl)]
  have hsize := hcount.trans (Layout.packed_volume hl).1
  exact ⟨_, l, hl, hexec, s.fresh_backing_packed hl hsize (hcount ▸ hfits), Layout.view_packed hl hsize⟩

section Casts

variable (b : s.Backing v l slot a) (hpos : 0 < l.numElements)

include b hpos

theorem cast_exhausted (k : Kind) (hroom : ¬ s.slots.size < handleLimit) :
    s.Exhausts (Action.cast v (.plain (.cell k))) :=
  (tabulate_exhausted b.wellFormed hpos b.numElements_lt hroom _).congr (cast_exec k b)

/-- After the first of two casts its result is backed, in a layout with as many elements. -/
theorem castVia_exec (wide k : Kind) (hroom : s.slots.size < handleLimit) :
    ∃ (s' : Store Body) (w : Value) (l' : Layout) (slot' : Slot) (a' : Data),
      (Action.castVia v wide k).exec s = (Action.cast w (.plain (.cell k))).exec s' ∧
      s'.slots.size = s.slots.size + 1 ∧ s'.Backing w l' slot' a' ∧ 0 < l'.numElements ∧
      (a'.view slot'.start l').toList = (a.view slot.start l).toList.map (·.convert wide) := by
  obtain ⟨w, l', hl', hexec, hw, hview⟩ := (cast_yields b hpos hroom wide).backing
  refine ⟨_, w, l', _, _, ?_, by simp [withBuffer], hw, ?_, ?_⟩
  · rw [Action.castVia, Action.exec_bind, hexec]
  · rw [(Layout.packed_volume hl').1, Layout.prod_logicalSize b.wellFormed]
    exact hpos
  · rw [hview, Data.toList_convert]

theorem castVia_gives (wide k : Kind) (hroom : s.slots.size + 1 < handleLimit) :
    s.Gives (Action.castVia v wide k)
      (.ofList k ((a.view slot.start l).toList.map fun d => (d.convert wide).convert k)) := by
  obtain ⟨s', w, l', slot', a', hexec, hslots, hw, hpos', hlist⟩ :=
    castVia_exec b hpos wide k (Nat.lt_of_succ_lt hroom)
  obtain ⟨u, t, hcast, hread⟩ := (cast_yields hw hpos' (hslots ▸ hroom) k).gives
  rw [hlist, List.map_map] at hread
  exact ⟨u, t, hexec.trans hcast, hread⟩

theorem castVia_exhausted (wide k : Kind) (hroom : ¬ s.slots.size + 1 < handleLimit) :
    ((Action.castVia v wide k).exec s).1 = .error (.backend .handlesExhausted) := by
  by_cases hfirst : s.slots.size < handleLimit
  · obtain ⟨s', w, l', slot', a', hexec, hslots, hw, hpos', -⟩ := castVia_exec b hpos wide k hfirst
    rw [hexec]
    exact (cast_exhausted hw hpos' k (hslots ▸ hroom)).failure
  · obtain ⟨data, hexec⟩ := cast_exhausted b hpos wide hfirst
    rw [Action.castVia, Action.exec_bind, hexec]

end Casts

/-- Integer casts wrap, and lossless ones can be undone. A backed value with elements is cast to any kind of
integers as long as a handle is left, and each element becomes the one integer of the kind that is congruent to
its number. With two handles left, a cast through a kind of integers at least as wide reads as the cast at
once, whatever the signs, and so a cast back to the kind of the value reads as the value. -/
theorem cast_wraps (b : s.Backing v l slot a) (hpos : 0 < l.numElements) :
    ∃ xs, s.read v = .ok xs ∧ ∀ k : IntKind,
      (s.slots.size < handleLimit →
        ∃ ys, s.Yields (Action.cast v (.plain (.cell (.integer k)))) l.logicalSize ys ∧
          ys.size = xs.size ∧
          (∀ (i : Nat) (d : Datum), xs.toList[i]? = some d → ∀ y : BitVec k.width,
            ys.toList[i]? = some (.integer k y) ↔ k.toInt y ≡ d.number [ZMOD 2 ^ k.width]) ∧
          ∀ wide : IntKind, k.width ≤ wide.width → s.slots.size + 1 < handleLimit →
            s.Gives (Action.castVia v (.integer wide) (.integer k)) ys ∧
            (v.base = .cell (.integer k) →
              s.Gives (Action.castVia v (.integer wide) (.integer k)) xs)) ∧
      (¬ s.slots.size < handleLimit → s.Exhausts (Action.cast v (.plain (.cell (.integer k))))) ∧
      (¬ s.slots.size + 1 < handleLimit → ∀ wide : IntKind,
        ((Action.castVia v (.integer wide) (.integer k)).exec s).1 =
          .error (.backend .handlesExhausted)) := by
  refine ⟨a.view slot.start l, b.read_eq, fun k => ⟨fun hroom => ?_, cast_exhausted b hpos _,
    fun hroom wide => castVia_exhausted b hpos _ _ hroom⟩⟩
  refine ⟨_, cast_yields b hpos hroom (.integer k), ?_, fun i d hd y => ?_, fun wide hwidth hroom => ?_⟩
  · rw [Data.size_ofList, List.length_map, Data.length_toList]
  · rw [Data.toList_convert, List.getElem?_map, hd, Option.map_some, Option.some_inj, d.convert_eq_iff]
  · -- what the second cast reads is decided by the first one's argument, because of the widths
    have hvia := castVia_gives b hpos (.integer wide) (.integer k) hroom
    simp only [Datum.convert_convert hwidth] at hvia
    refine ⟨hvia, fun hbase => ?_⟩
    have hkind : a.kind = .integer k := BaseType.cell.inj (b.base.symm.trans hbase)
    have hself : ∀ d ∈ (a.view slot.start l).toList, d.convert (.integer k) = d :=
      fun d hd => Data.convert_of_kind ((Data.kind_of_mem hd).trans hkind)
    have hall : Data.ofList a.kind (a.view slot.start l).toList = a.view slot.start l :=
      Data.ofList_toList (a.view slot.start l)
    rwa [List.map_congr_left hself, List.map_id', ← hkind, hall, hkind] at hvia

/-- Two shorts, a negative one and one that does not fit in eight bits. As bytes both wrap, also by way of
`char8`, whose sign is another; by way of 32 bits they come back. -/
theorem cast_wraps_shorts :
    let a : Data := .ofList (.integer .short) [.integer .short (-1), .integer .short 300]
    let s : Store Unit := (Store.empty : Store Unit).withBuffer a
    let v : Value := (Store.empty : Store Unit).fresh (.integer .short) ⟨[⟨2, 2, 0, 1, 0⟩]⟩
    s.read v = .ok a ∧
      (∃ ys : Data, ys.toList = [.integer .byte 255, .integer .byte 44] ∧
        s.Yields (Action.cast v (.plain (.cell (.integer .byte)))) [2] ys ∧
        s.Gives (Action.castVia v (.integer .char8) (.integer .byte)) ys) ∧
      s.Gives (Action.castVia v (.integer .int32) (.integer .short)) a := by
  intro a s v
  have b : s.Backing v ⟨[⟨2, 2, 0, 1, 0⟩]⟩ ⟨0, 0⟩ a :=
    Store.empty.fresh_backing_packed (rfl : Layout.ofSizes [2] = _) rfl (by decide)
  obtain ⟨xs, hxs, hcast⟩ := cast_wraps b (by decide)
  have hread : s.read v = .ok a := rfl
  obtain rfl : a = xs := Except.ok.inj (hread.symm.trans hxs)
  obtain ⟨ys, hyields, hsize, hwraps, hvia⟩ := (hcast .byte).1 (by decide)
  obtain ⟨_, -, -, -, hback⟩ := (hcast .short).1 (by decide)
  have hfirst : ys.toList[0]? = some (.integer .byte 255) :=
    (hwraps 0 (.integer .short (-1)) rfl 255).mpr (by decide)
  have hsecond : ys.toList[1]? = some (.integer .byte 44) :=
    (hwraps 1 (.integer .short 300) rfl 44).mpr (by decide)
  refine ⟨hread, ⟨ys, ?_, hyields, (hvia .char8 (by decide) (by decide)).1⟩,
    (hback .int32 (by decide) (by decide)).2 rfl⟩
  have hlength : ys.toList.length = 2 := by rw [Data.length_toList, hsize]; rfl
  refine List.ext_getElem? fun i => ?_
  match i with
  | 0 => exact hfirst
  | 1 => exact hsecond
  | i + 2 => exact List.getElem?_eq_none (hlength ▸ Nat.le_add_left 2 i)

/-- A double that is converted to an integer saturates in 64 bits and wraps in the kind, and so do the elements
of a cast. The integer is what saturating in the kind gives exactly if the number held in 64 bits is congruent to
that. So it always is for 64 bits, and for every kind if the number lies between its bounds, as the zero does
that stands for what is not a number. -/
theorem cast_saturates_iff :
    (∀ (x : Float) (k : IntKind), ∃ y : BitVec k.width,
      (Datum.double x).convert (.integer k) = .integer k y ∧
        k.toInt y = k.wrap (IntKind.int64.saturate x.toModel.unpack) ∧
        (k.toInt y = k.saturate x.toModel.unpack ↔
          IntKind.int64.saturate x.toModel.unpack ≡ k.saturate x.toModel.unpack
            [ZMOD 2 ^ k.width]) ∧
        (k.least ≤ IntKind.int64.saturate x.toModel.unpack →
          IntKind.int64.saturate x.toModel.unpack ≤ k.greatest →
          k.toInt y = k.saturate x.toModel.unpack)) ∧
    ∀ (s : Store Body) (v : Value) (l : Layout) (slot : Slot) (a : Data), s.Backing v l slot a →
      v.base = .double → 0 < l.numElements →
      ∃ xs, s.read v = .ok xs ∧ (∀ d ∈ xs.toList, ∃ x, d = .double x) ∧ ∀ k : IntKind,
        (s.slots.size < handleLimit →
          ∃ ys, s.Yields (Action.cast v (.plain (.cell (.integer k)))) l.logicalSize ys ∧
            ys.toList = xs.toList.map (·.convert (.integer k))) ∧
        (¬ s.slots.size < handleLimit →
          s.Exhausts (Action.cast v (.plain (.cell (.integer k))))) := by
  refine ⟨fun x k => ?_, fun s v l slot a b hbase hpos => ?_⟩
  · have hint := k.toInt_ofInt (IntKind.int64.saturate x.toModel.unpack)
    refine ⟨_, Datum.convert_double x k, hint, ?_, fun hleast hgreatest => ?_⟩
    · rw [hint, k.wrap_saturate_iff]
    · rw [hint, IntKind.wrap_saturate_of_mem hleast hgreatest]
  have hkind : a.kind = .double := BaseType.cell.inj (b.base.symm.trans hbase)
  refine ⟨a.view slot.start l, b.read_eq, fun d hd => ?_, fun k => ⟨fun hroom => ?_, ?_⟩⟩
  · exact Datum.exists_double ((Data.kind_of_mem hd).trans hkind)
  · exact ⟨_, cast_yields b hpos hroom (.integer k), Data.toList_convert _ _⟩
  · exact cast_exhausted b hpos _

/-- Two doubles out of the range of a byte, one on each side. The bytes are those of the words three hundred
and minus two. -/
theorem cast_saturates_iff_row :
    let a : Data := .ofList .double [.double 300.0, .double (-2.5)]
    let s : Store Unit := (Store.empty : Store Unit).withBuffer a
    let v : Value := (Store.empty : Store Unit).fresh .double ⟨[⟨2, 2, 0, 1, 0⟩]⟩
    s.read v = .ok a ∧ ∃ ys : Data, ys.toList = [.integer .byte 44, .integer .byte 254] ∧
      s.Yields (Action.cast v (.plain (.cell (.integer .byte)))) [2] ys := by
  intro a s v
  have b : s.Backing v ⟨[⟨2, 2, 0, 1, 0⟩]⟩ ⟨0, 0⟩ a :=
    Store.empty.fresh_backing_packed (rfl : Layout.ofSizes [2] = _) rfl (by decide)
  obtain ⟨xs, hxs, -, hcast⟩ := (@cast_saturates_iff Unit).2 s v _ _ a b rfl (by decide)
  have hread : s.read v = .ok a := rfl
  obtain rfl : a = xs := Except.ok.inj (hread.symm.trans hxs)
  obtain ⟨ys, hyields, hlist⟩ := (hcast .byte).1 (by decide)
  refine ⟨hread, ys, hlist.trans ?_, hyields⟩
  decide +kernel

end Store

end Emission
