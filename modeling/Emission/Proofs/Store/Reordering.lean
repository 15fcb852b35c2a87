import Emission.Proofs.Layout.Reordering
import Emission.Proofs.Store.Tabulation

/-!
Reading through a reordered layout. The element at some coordinates is the one that the given layout has where
these coordinates are carried, so the same elements are read in another order, and reading fails through one of
the layouts exactly if it fails through the other.
-/
namespace Emission

variable {Body : Type}

namespace Store

variable {s : Store Body} {v : Value} {l r : Layout}

/-- Where two layouts have the same offset a value has the same element. -/
theorem fetch_withLayout (hl : v.layout? = some l) {c c' : List Nat}
    (h : r.entryOffset c = l.entryOffset c') : s.fetch (v.withLayout r) c = s.fetch v c' := by
  have hlayout := Value.layout_eq_ok_iff.mpr hl
  unfold fetch locate
  simp only [hlayout, ok_bind]
  rw [← h]
  rfl

/-- Through the reordered layout the elements are read in another order. -/
theorem read_withOrder (hl : v.layout? = some l) (hwell : l.WellFormed) {o : List Nat}
    (ho : o.Perm (List.range l.rank)) {a : Data} (h : s.read v = .ok a) :
    ∃ b, s.read (v.withLayout (l.withOrder o)) = .ok b ∧ b.kind = a.kind ∧ b.toList.Perm a.toList ∧
      ∀ c, (l.withOrder o).InRange c → b.toList[position (l.withOrder o).logicalSize c]? =
        a.toList[position l.logicalSize (carry o l.order c)]? := by
  obtain ⟨k, g, hbase, hroom, hg, rfl⟩ := read_eq_ok hl h
  rw [← Layout.numElements_withOrder hwell ho] at hroom
  have hwell' := Layout.withOrder_wellFormed hwell ho
  have hbij := Layout.carry_bijOn hwell ho
  have hfetch : ∀ c ∈ (l.withOrder o).coordinates,
      s.fetch (v.withLayout (l.withOrder o)) c = .ok (g (carry o l.order c)) := by
    intro c hc
    have hin := (Layout.mem_coordinates hwell').mp hc
    rw [fetch_withLayout hl (Layout.entryOffset_withOrder hwell ho hin)]
    exact hg _ ((Layout.mem_coordinates hwell).mpr (hbij.mapsTo hin))
  refine ⟨.ofList k ((l.withOrder o).coordinates.map fun c => g (carry o l.order c)), ?_, rfl, ?_, ?_⟩
  · rw [read_eq_mapM (v := v.withLayout (l.withOrder o)) rfl hbase hroom, mapM_eq_ok hfetch]
    rfl
  · have hperm := (Layout.coordinates_withOrder hwell ho).map fun c => (g c).convert k
    rw [List.map_map] at hperm
    simp only [Data.toList, Data.ofList, List.map_map]
    exact hperm
  · intro c hc
    have hat := Layout.getElem?_position hwell' hc
    have hat' := Layout.getElem?_position hwell (hbij.mapsTo hc)
    simp only [Data.toList, Data.ofList, List.getElem?_map, hat, hat', Option.map_some]

end Store

namespace Layout

open Store

/-- Reordering transposes. Every permutation of the axes is accepted, and undone by the order that was there
before. Coordinates of the reordered layout are carried to coordinates of the given one, those of each
dimension to its axis there, and all of them in one way; they have the offset of those that they are
carried to. So the offsets of both layouts are the same, which without padding are all cells. Reading any storage
through the reordered layout gives each element where its coordinates are carried from, a rearrangement of
what is read through the given one, and reading through both succeeds or fails. -/
theorem reorder_transposes {l : Layout} (hl : l.Obtainable) {o : List Nat}
    (ho : o.Perm (List.range l.rank)) : ∃ r, l.reorder o = .ok r ∧ r.Obtainable ∧
      r.reorder l.order = .ok l ∧
      (∀ (x : List Nat) (d a b : Nat), r.InRange x → l.order[d]? = some a → o[d]? = some b →
        (carry o l.order x)[a]? = x[b]?) ∧
      Set.BijOn (carry o l.order) {c | r.InRange c} {c | l.InRange c} ∧
      (∀ c, r.InRange c → ∃ n, r.entryOffset c = .ok n ∧ l.entryOffset (carry o l.order c) = .ok n) ∧
      r.offsets = l.offsets ∧
      (l.isContiguous = true → l.offsets = {n | n < l.memorySize}) ∧
      ∀ (s : Store Body) (v : Value), v.layout? = some l →
        ((∃ b, s.read (v.withLayout r) = .ok b) ↔ ∃ a, s.read v = .ok a) ∧
        ∀ a b, s.read v = .ok a → s.read (v.withLayout r) = .ok b →
          b.kind = a.kind ∧ b.toList.Perm a.toList ∧ ∀ c, r.InRange c →
            b.toList[position r.logicalSize c]? =
              a.toList[position l.logicalSize (carry o l.order c)]? := by
  have hwell := hl.wellFormed
  have hlength : o.length = l.rank := ho.length_eq.trans List.length_range
  have hback : l.order.Perm (List.range (l.withOrder o).rank) := (rank_withOrder ho).symm ▸ hwell.axes
  have hreorder := reorder_eq_withOrder ho
  have hundone : (l.withOrder o).withOrder l.order = l := by
    rw [withOrder_withOrder hlength, withOrder_order]
  have hob : (l.withOrder o).Obtainable := by
    obtain ⟨recipe, hrecipe⟩ := hl
    exact ⟨.reordered recipe o, by rw [Recipe.build, hrecipe, ok_bind, hreorder]⟩
  refine ⟨l.withOrder o, hreorder, hob, ?_, ?_, carry_bijOn hwell ho, ?_, offsets_withOrder hwell ho,
    offsets_of_contiguous hwell, ?_⟩
  · rw [reorder_eq_withOrder hback, hundone]
  · intro x d a b hx ha hb
    exact getElem?_carry ho hwell.axes (length_of_withOrder ho hx) ha hb
  · intro c hc
    have hin := hc.entryOffset_eq hob.wellFormed
    exact ⟨_, hin, (entryOffset_withOrder hwell ho hc).symm.trans hin⟩
  · intro s v hv
    refine ⟨⟨?_, ?_⟩, fun a b ha hb => ?_⟩
    · rintro ⟨b, hb⟩
      obtain ⟨a, ha, -⟩ := read_withOrder (v := v.withLayout (l.withOrder o)) rfl hob.wellFormed hback hb
      rw [hundone] at ha
      exact ⟨a, by rwa [show v = v.withLayout l by rw [Value.withLayout, ← hv]]⟩
    · rintro ⟨a, ha⟩
      obtain ⟨b, hb, -⟩ := read_withOrder hv hwell ho ha
      exact ⟨b, hb⟩
    · obtain ⟨b', hb', hrest⟩ := read_withOrder hv hwell ho ha
      obtain rfl := Except.ok.inj (hb'.symm.trans hb)
      exact hrest

/-- Three axes in a cycle, one of them padded, and another cycle on them. Turned the other way, the
coordinates would lie elsewhere. -/
theorem reorder_transposes_cycle :
    let data : Data := Action.bytes (List.range 16)
    let s : Store Unit := { Store.empty with buffers := #[data], slots := #[⟨0, 0⟩] }
    let l : Layout := ⟨[⟨2, 2, 0, 8, 1⟩, ⟨3, 4, 1, 2, 2⟩, ⟨2, 2, 0, 1, 0⟩]⟩
    let r : Layout := ⟨[⟨2, 2, 0, 8, 2⟩, ⟨3, 4, 1, 2, 0⟩, ⟨2, 2, 0, 1, 1⟩]⟩
    let v : Value := ⟨.plain (.cell (.integer .byte)), some l, some ⟨0⟩⟩
    l.Obtainable ∧ [2, 0, 1].Perm (List.range l.rank) ∧ l.reorder [2, 0, 1] = .ok r ∧
      r.reorder [1, 2, 0] = .ok l ∧ carry [2, 0, 1] [1, 2, 0] [2, 1, 0] = [1, 0, 2] ∧
      r.entryOffset [2, 1, 0] = .ok 7 ∧ l.entryOffset [1, 0, 2] = .ok 7 ∧
      s.read v = .ok (data.view 0 l) ∧ s.read (v.withLayout r) = .ok (data.view 0 r) ∧
      (data.view 0 l).toList = (Action.bytes [2, 4, 6, 10, 12, 14, 3, 5, 7, 11, 13, 15]).toList ∧
      (data.view 0 r).toList = (Action.bytes [2, 10, 3, 11, 4, 12, 5, 13, 6, 14, 7, 15]).toList ∧
      (data.view 0 r).toList.Perm (data.view 0 l).toList := by
  intro data s l r v
  have hl : l.Obtainable := ⟨.parts [2, 3, 2] [2, 4, 2] [0, 1, 0] [1, 2, 0], rfl⟩
  have ho : [2, 0, 1].Perm (List.range l.rank) := by decide
  have hc : r.InRange [2, 1, 0] := .cons (by decide) (.cons (by decide) (.cons (by decide) .nil))
  obtain ⟨r', hr, hob, hback, -, -, hoffset, -, -, hread⟩ := @reorder_transposes Unit l hl [2, 0, 1] ho
  obtain rfl : r' = r := (Except.ok.inj hr).symm
  obtain ⟨n, hn, hn'⟩ := hoffset [2, 1, 0] hc
  obtain rfl : n = 7 := (Except.ok.inj hn).symm
  have hv : s.Backing v l ⟨0, 0⟩ data := {
    layout := rfl
    obtainable := hl
    handle := ⟨⟨0⟩, rfl, rfl⟩
    cells := rfl
    base := rfl
    room := by decide
    fits := by decide }
  have hw : s.Backing (v.withLayout r) r ⟨0, 0⟩ data := { hv with layout := rfl, obtainable := hob }
  exact ⟨hl, ho, hr, hback, by decide, hn, hn', hv.read_eq, hw.read_eq, by decide +kernel,
    by decide +kernel, ((hread s v rfl).2 _ _ hv.read_eq hw.read_eq).2.1⟩

end Layout

end Emission
