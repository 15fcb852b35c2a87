import Emission.Proofs.Layout.Packing
import Emission.Proofs.Store.Arguments

/-!
Constants and reshaped views of them. A constant lies on a buffer of its own from the first cell on, and a
packed layout reads the cells of a buffer in order. So a constant reads as itself through any packed layout
with as many elements. Slots stay what they are and a buffer only changes when something is copied into it, so
this holds for as long as nothing is copied there.
-/
namespace Emission

namespace Layout

/-- A packed layout has its elements at the offsets in which they are read. -/
theorem packed_entryOffset {ns : List Nat} {l : Layout} (h : ofSizes ns = .ok l) {i : Nat}
    (hi : i < l.numElements) : ∃ c, l.coordinates[i]? = some c ∧ l.entryOffset c = .ok i := by
  have hl := ofSizes_wellFormed h
  have hlt : i < l.coordinates.length := by rwa [length_coordinates hl]
  refine ⟨l.coordinates[i], List.getElem?_eq_getElem hlt, ?_⟩
  have hin := (coordinates_spec hl).1 _ (List.getElem_mem hlt)
  rw [InRange.entryOffset_eq hl hin, packed_address_getElem h hlt]

end Layout

open Emission.Store Emission.Action

variable {Body α : Type} {s : Store Body} {v : Value} {l : Layout} {slot : Slot} {data : Data}

theorem frames_extends : Frames (@Extends Body) where
  grown h := by
    obtain ⟨bs, hbs⟩ := h.accrues.buffers
    obtain ⟨hs, hhs⟩ := h.accrues.slots
    refine ⟨fun i x hx => ?_, fun i a ha => ⟨a, ?_, rfl, rfl⟩⟩
    · rw [hhs, Array.getElem?_append_left (Array.getElem?_eq_some_iff.mp hx).1]
      exact hx
    · rw [hbs, Array.getElem?_append_left (Array.getElem?_eq_some_iff.mp ha).1]
      exact ha
  within _ _ _ h := ⟨h.slots, h.buffers⟩

/-- Whatever is run, no slot changes, and no buffer's kind or length. -/
theorem Procedure.extends_run (p : Procedure Body α) (s : Store Body) : s.Extends (p.run.exec s).2 :=
  frames_extends.obeys (fun v w s => (keeps_copy v w (s := s)).1.extension) p s

/-- What is behind a value stays as it is, unless something is copied into its buffer. -/
theorem Store.Backing.run {a : Point Body} (b : a.state.Backing v l slot data)
    (ha : a.WritesOnly (· ≠ slot.buffer)) : (a.code.run.exec a.state).2.Backing v l slot data where
  layout := b.layout
  obtainable := b.obtainable
  handle := by
    obtain ⟨h, hh, hslot⟩ := b.handle
    exact ⟨h, hh, (a.code.extends_run a.state).slots _ _ hslot⟩
  cells := ha.spares (fun h => h rfl) data b.cells
  base := b.base
  room := b.room
  fits := b.fits

namespace Action

/-- A constant is stored on the next buffer, in a row. -/
theorem exec_storeConstant (s : Store Body) (c : Constant) :
    ∃ row, Layout.ofSizes [c.data.size] = .ok row ∧ (storeConstant c).exec s =
      if s.slots.size < handleLimit then (.ok (s.fresh c.data.kind row), s.withBuffer c.data)
      else (.error (.backend .handlesExhausted), { s with buffers := s.buffers.push c.data }) := by
  have hword := lt_wordLimit_of_lt_cellLimit c.fits
  obtain ⟨row, hrow⟩ := (Layout.exists_ofSizes_iff _).mpr (Layout.packs_row hword)
  refine ⟨row, hrow, ?_⟩
  unfold storeConstant
  rw [exec_bind, exec_lift, hrow]
  exact exec_newBuffer s c.data row

/-- A packed layout has its elements at the offsets in which they are read. So a constant that is stored, on
whatever state, and shown through any packed layout with as many elements reads as itself, and it does so
after any code that copies nothing into its buffer. Without a handle left it is not stored. -/
theorem storeConstant_reshaped {ns : List Nat} (hl : Layout.ofSizes ns = .ok l) :
    (∀ i < l.numElements, ∃ c, l.coordinates[i]? = some c ∧ l.entryOffset c = .ok i) ∧
    ∀ (s : Store Body) (constant : Constant), constant.data.size = ns.prod →
      (¬ s.slots.size < handleLimit → s.Exhausts (storeConstant constant)) ∧
      (s.slots.size < handleLimit → ∃ v,
        (storeConstant constant).exec s = (.ok v, s.withBuffer constant.data) ∧
        (s.withBuffer constant.data).read (v.withLayout l) = .ok constant.data ∧
        ∀ (α : Type) (p : Procedure Body α) (fs : List String),
          Point.WritesOnly (· ≠ s.buffers.size) ⟨p, fs, s.withBuffer constant.data⟩ →
          (p.run.exec (s.withBuffer constant.data)).2.read (v.withLayout l) = .ok constant.data) := by
  refine ⟨fun i hi => Layout.packed_entryOffset hl hi, fun s constant hsize => ?_⟩
  obtain ⟨data, hfits⟩ := constant
  have hob := Layout.obtainable_ofSizes hl
  have hvolume : l.memorySize = data.size := (Layout.packed_volume hl).2.trans hsize.symm
  obtain ⟨row, -, hexec⟩ := exec_storeConstant s ⟨data, hfits⟩
  -- the view has the layout of the reshape and the handle of the constant
  have b := s.fresh_backing data hob (Nat.le_of_eq hvolume) hfits
  have hview : (Except.ok (data.view 0 l) : Except Failure Data) = .ok data :=
    congrArg Except.ok (Layout.view_packed hl hsize)
  refine ⟨fun hroom => ⟨data, ?_⟩, fun hroom => ⟨s.fresh data.kind row, ?_, ?_, ?_⟩⟩
  · rw [hexec, if_neg hroom]
  · rw [hexec, if_pos hroom]
  · exact b.read_eq.trans hview
  · intro α p fs hwrites
    exact (b.run (a := ⟨p, fs, s.withBuffer data⟩) hwrites).read_eq.trans hview

/-- Six bytes as two rows of three. Later a number is stored and copied into a single one, and neither of
them is in the buffer of the six. -/
theorem storeConstant_reshaped_rows :
    let six : Constant := ⟨bytes [1, 2, 3, 4, 5, 6], by decide⟩
    let l : Layout := ⟨[⟨2, 2, 0, 3, 0⟩, ⟨3, 3, 0, 1, 1⟩]⟩
    let s : Store Unit := (Store.empty : Store Unit).withBuffer (bytes [9])
    let old : Value := ⟨.plain (.cell (.integer .byte)), some .scalar, some ⟨0⟩⟩
    let p : Procedure Unit Unit :=
      .bind (.ask (.storeConstant ⟨bytes [8], by decide⟩)) fun v =>
        .ask (.copy (v.withLayout .scalar) old)
    Layout.ofSizes [2, 3] = .ok l ∧ l.entryOffset [1, 1] = .ok 4 ∧
      ((p.run.exec (s.withBuffer six.data)).2.buffers.toList.map Data.cells =
        [(bytes [8]).cells, six.data.cells, (bytes [8]).cells]) ∧
      ∃ v, (storeConstant six).exec s = (.ok v, s.withBuffer six.data) ∧
        (p.run.exec (s.withBuffer six.data)).2.read (v.withLayout l) = .ok six.data := by
  intro six l s old p
  have hl : Layout.ofSizes [2, 3] = .ok l := rfl
  obtain ⟨hoffset, hstored⟩ := @storeConstant_reshaped Unit l [2, 3] hl
  obtain ⟨c, hc, hentry⟩ := hoffset 4 (by decide)
  obtain rfl : [1, 1] = c := Option.some.inj hc
  obtain ⟨v, hexec, -, hlater⟩ := (hstored s six rfl).2 (by decide)
  have hold : s.bufferOf? old = some 0 := rfl
  refine ⟨hl, hentry, by decide +kernel, v, hexec, hlater Unit p [] ?_⟩
  refine .bind (.additive trivial id) ?_
  intro w s' hstore
  refine .copy fun b hb => ?_
  have hext := (Procedure.ask (.storeConstant ⟨bytes [8], by decide⟩)).extends_run (s.withBuffer six.data)
  rw [hstore] at hext
  have hgrows := (s.grows_withBuffer six.data).toExtends.trans hext
  obtain rfl : 0 = b := Option.some.inj ((bufferOf?_mono hgrows hold).symm.trans hb)
  decide

end Action

end Emission
