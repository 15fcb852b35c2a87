import Emission.Proofs.Layout.Addressing
import Mathlib.Data.Set.Function

/-!
Layouts with their axes reordered. Each dimension keeps its cells and takes the coordinate of another axis, so
coordinates of the reordered layout are carried over to coordinates of the given one, and lie at the same
address there. Going back carries them the other way. The two index spaces have the same offsets, and without
padding these are all cells.
-/
namespace Emission

/-- The coordinates that have at each axis `targets[d]` what the given ones have at `sources[d]`. -/
def carry (sources targets coordinates : List Nat) : List Nat :=
  (List.range targets.length).map fun a =>
    coordinates[sources[targets.idxOf a]?.getD 0]?.getD 0

section Carry

variable {n : Nat} {sources targets x : List Nat}

theorem length_carry (hq : targets.Perm (List.range n)) :
    (carry sources targets x).length = n := by
  simpa [carry] using hq.length_eq

theorem getElem?_carry (hp : sources.Perm (List.range n)) (hq : targets.Perm (List.range n))
    (hx : x.length = n) {d a b : Nat} (ha : targets[d]? = some a) (hb : sources[d]? = some b) :
    (carry sources targets x)[a]? = x[b]? := by
  have hnodup : targets.Nodup := hq.nodup_iff.mpr List.nodup_range
  obtain ⟨hd, rfl⟩ := List.getElem?_eq_some_iff.mp ha
  have hlt : targets[d] < targets.length := by
    rw [hq.length_eq, List.length_range]
    exact List.mem_range.mp (hq.mem_iff.mp (List.getElem_mem hd))
  have hblt : b < x.length := by
    rw [hx]
    exact List.mem_range.mp (hp.mem_iff.mp (List.mem_of_getElem? hb))
  rw [carry, List.getElem?_map, List.getElem?_range hlt, Option.map_some,
    hnodup.idxOf_getElem d hd, hb, Option.getD_some, List.getElem?_eq_getElem hblt, Option.getD_some]

/-- Carried over and back, coordinates are what they were. -/
theorem carry_carry (hp : sources.Perm (List.range n)) (hq : targets.Perm (List.range n))
    (hx : x.length = n) : carry targets sources (carry sources targets x) = x := by
  refine List.ext_getElem? fun b => ?_
  by_cases hb : b < n
  · obtain ⟨d, hd⟩ := List.mem_iff_getElem?.mp (hp.mem_iff.mpr (List.mem_range.mpr hb))
    have hlt : d < targets.length := by
      rw [hq.length_eq, ← hp.length_eq]
      exact (List.getElem?_eq_some_iff.mp hd).1
    have ha : targets[d]? = some targets[d] := List.getElem?_eq_getElem hlt
    rw [getElem?_carry hq hp (length_carry hq) hd ha, getElem?_carry hp hq hx ha hd]
  · have hlength : (carry targets sources (carry sources targets x)).length = n := length_carry hp
    rw [List.getElem?_eq_none (by omega), List.getElem?_eq_none (by omega)]

end Carry

namespace Layout

/-- The layout with other axes on its dimensions. -/
def withOrder (l : Layout) (order : List Nat) : Layout :=
  ⟨List.zipWith (fun d a => { d with axis := a }) l.dims order⟩

/-- Every permutation of the axes is accepted. -/
theorem reorder_eq_withOrder {l : Layout} {order : List Nat}
    (ho : order.Perm (List.range l.rank)) : l.reorder order = .ok (l.withOrder order) := by
  have hlength : order.length = l.rank := ho.length_eq.trans List.length_range
  have hcheck : checkOrder order = .ok () := checkOrder_eq_ok_iff.mpr (hlength ▸ ho)
  simp only [reorder, hlength, ne_eq, not_true_eq_false, if_false, hcheck, ok_bind, pure_eq_ok, withOrder]

theorem withOrder_order (l : Layout) : l.withOrder l.order = l := by
  simp [withOrder, order, List.zipWith_map_right, List.zipWith_self]

/-- Only the last order counts. -/
theorem withOrder_withOrder {l : Layout} {o : List Nat} (ho : o.length = l.rank) (o' : List Nat) :
    (l.withOrder o).withOrder o' = l.withOrder o' := by
  obtain ⟨dims⟩ := l
  refine congrArg Layout.mk ?_
  simp only [withOrder, rank] at ho ⊢
  induction dims generalizing o o' with
  | nil => simp
  | cons d dims ih =>
    obtain ⟨a, o, rfl⟩ := List.exists_cons_of_length_eq_add_one ho
    cases o' with
    | nil => rfl
    | cons a' o' =>
      simp only [List.length_cons, Nat.add_right_cancel_iff] at ho
      exact congrArg (List.cons _) (ih o' ho)

theorem rank_withOrder {l : Layout} {o : List Nat} (ho : o.Perm (List.range l.rank)) :
    (l.withOrder o).rank = l.rank := by
  rw [rank, withOrder, List.length_zipWith, ho.length_eq, List.length_range, rank, Nat.min_self]

/-- Coordinates are in range when along each dimension their place is an active one. -/
theorem inRange_iff_place {l : Layout} (hl : l.WellFormed) {c : List Nat} :
    l.InRange c ↔ c.length = l.rank ∧ ∀ d ∈ l.dims, d.place c < d.offset + d.size := by
  constructor
  · intro hc
    refine ⟨hc.length_eq_rank, fun d hd => ?_⟩
    obtain ⟨x, hx, hlt⟩ := hc.coordinate hl hd
    rw [Dimension.place, hx, Option.getD_some]
    omega
  · rintro ⟨hrank, hplace⟩
    refine List.forall₂_iff_get.mpr ⟨by rw [length_logicalSize, hrank], fun i hi hi' => ?_⟩
    obtain ⟨d, hd, rfl⟩ := List.mem_map.mp (hl.axes.mem_iff.mpr (List.mem_range.mpr (hrank ▸ hi')))
    have hsize := getElem?_logicalSize hl hd
    rw [List.getElem?_eq_getElem hi, Option.some.injEq] at hsize
    have hlt := hplace d hd
    rw [Dimension.place, List.getElem?_eq_getElem hi', Option.getD_some] at hlt
    simp only [List.get_eq_getElem, hsize]
    omega

section WithOrder

variable {l : Layout} {o c : List Nat}

/-- A dimension has coordinates in the place in which it has those that are carried over. What is computed from
its place, its cells and its stride is the same. -/
theorem map_withOrder {β : Type} (hl : l.WellFormed) (ho : o.Perm (List.range l.rank))
    (hc : c.length = l.rank) (f : Nat → Dimension → β)
    (hf : ∀ (d : Dimension) (a p : Nat), f p { d with axis := a } = f p d) :
    (l.withOrder o).dims.map (fun d => f (d.place c) d) =
      l.dims.map fun d => f (d.place (carry o l.order c)) d := by
  have hlength : l.dims.length = o.length := (ho.length_eq.trans List.length_range).symm
  have hplace : ∀ x ∈ l.dims.zip o, ({ x.1 with axis := x.2 } : Dimension).place c =
      x.1.place (carry o l.order c) := by
    rintro ⟨d, b⟩ hx
    obtain ⟨i, hi⟩ := List.mem_iff_getElem?.mp hx
    obtain ⟨hd, hb⟩ := List.getElem?_zip_eq_some.mp hi
    have ha : l.order[i]? = some d.axis := by rw [order, List.getElem?_map, hd, Option.map_some]
    simp only [Dimension.place, getElem?_carry ho hl.axes hc ha hb]
  have hfst : l.dims = (l.dims.zip o).map Prod.fst := (List.map_fst_zip (Nat.le_of_eq hlength)).symm
  rw [withOrder, ← List.map_uncurry_zip_eq_zipWith, List.map_map]
  conv_rhs => rw [hfst, List.map_map]
  refine List.map_congr_left fun x hx => ?_
  change f (({ x.1 with axis := x.2 } : Dimension).place c) { x.1 with axis := x.2 } = _
  rw [hplace x hx, hf]
  rfl

theorem address_withOrder (hl : l.WellFormed) (ho : o.Perm (List.range l.rank))
    (hc : c.length = l.rank) : (l.withOrder o).address c = l.address (carry o l.order c) :=
  congrArg List.sum (map_withOrder hl ho hc (fun p d => p * d.stride) fun _ _ _ => rfl)

theorem withOrder_wellFormed (hl : l.WellFormed) (ho : o.Perm (List.range l.rank)) :
    (l.withOrder o).WellFormed :=
  hl.reorder (reorder_eq_withOrder ho)

/-- Coordinates are in range exactly if they are where they are carried to. -/
theorem inRange_withOrder_iff (hl : l.WellFormed) (ho : o.Perm (List.range l.rank))
    (hc : c.length = l.rank) : (l.withOrder o).InRange c ↔ l.InRange (carry o l.order c) := by
  have hplaces := map_withOrder hl ho hc (fun p d => p < d.offset + d.size) fun _ _ _ => rfl
  rw [inRange_iff_place (withOrder_wellFormed hl ho), inRange_iff_place hl, rank_withOrder ho,
    length_carry hl.axes, and_iff_right hc, and_iff_right rfl]
  simpa only [List.forall_mem_map] using
    iff_of_eq (congrArg (fun ps : List Prop => ∀ p ∈ ps, p) hplaces)

theorem length_of_withOrder (ho : o.Perm (List.range l.rank)) (hc : (l.withOrder o).InRange c) :
    c.length = l.rank :=
  hc.length_eq_rank.trans (rank_withOrder ho)

/-- Coordinates of the reordered layout and of the given one are carried into each other. -/
theorem carry_bijOn (hl : l.WellFormed) (ho : o.Perm (List.range l.rank)) :
    Set.BijOn (carry o l.order) {c | (l.withOrder o).InRange c} {c | l.InRange c} := by
  have hrank : ∀ c, (l.withOrder o).InRange c → c.length = l.rank := fun _ => length_of_withOrder ho
  refine ⟨fun c hc => ?_, fun c hc c' hc' heq => ?_, fun c' hc' => ?_⟩
  · exact (inRange_withOrder_iff hl ho (hrank c hc)).mp hc
  · rw [← carry_carry ho hl.axes (hrank c hc), heq, carry_carry ho hl.axes (hrank c' hc')]
  · have hback := carry_carry hl.axes ho (hc' : l.InRange c').length_eq_rank
    refine ⟨carry l.order o c', ?_, hback⟩
    refine (inRange_withOrder_iff hl ho (length_carry ho)).mpr ?_
    rw [hback]
    exact hc'

/-- Coordinates have the offset of those that they are carried to. -/
theorem entryOffset_withOrder (hl : l.WellFormed) (ho : o.Perm (List.range l.rank))
    (hc : (l.withOrder o).InRange c) :
    (l.withOrder o).entryOffset c = l.entryOffset (carry o l.order c) := by
  have hrank := length_of_withOrder ho hc
  have hcarried : l.InRange (carry o l.order c) := (inRange_withOrder_iff hl ho hrank).mp hc
  rw [hc.entryOffset_eq (withOrder_wellFormed hl ho), hcarried.entryOffset_eq hl,
    address_withOrder hl ho hrank]

end WithOrder

/-- The offsets of all coordinates in range. -/
def offsets (l : Layout) : Set Nat := {n | ∃ c, l.InRange c ∧ l.entryOffset c = .ok n}

theorem offsets_withOrder {l : Layout} {o : List Nat} (hl : l.WellFormed)
    (ho : o.Perm (List.range l.rank)) : (l.withOrder o).offsets = l.offsets := by
  have hbij := carry_bijOn hl ho
  ext n
  constructor
  · rintro ⟨c, hc, hn⟩
    exact ⟨carry o l.order c, hbij.mapsTo hc, (entryOffset_withOrder hl ho hc).symm.trans hn⟩
  · rintro ⟨c', hc', hn⟩
    obtain ⟨c, hc, rfl⟩ := hbij.surjOn hc'
    exact ⟨c, hc, (entryOffset_withOrder hl ho hc).trans hn⟩

theorem nodup_coordinates {l : Layout} (hl : l.WellFormed) : l.coordinates.Nodup := by
  refine List.Nodup.of_map (position l.logicalSize) ?_
  rw [(coordinates_spec hl).2]
  exact List.nodup_range

/-- Both layouts pass through the same coordinates, up to their order. -/
theorem coordinates_withOrder {l : Layout} {o : List Nat} (hl : l.WellFormed)
    (ho : o.Perm (List.range l.rank)) :
    ((l.withOrder o).coordinates.map (carry o l.order)).Perm l.coordinates := by
  have hr := withOrder_wellFormed hl ho
  have hbij := carry_bijOn hl ho
  have hnodup : ((l.withOrder o).coordinates.map (carry o l.order)).Nodup :=
    (nodup_coordinates hr).map_on fun c hc c' hc' =>
      hbij.injOn ((mem_coordinates hr).mp hc) ((mem_coordinates hr).mp hc')
  refine (List.perm_ext_iff_of_nodup hnodup (nodup_coordinates hl)).mpr fun c' => ?_
  rw [List.mem_map, mem_coordinates hl]
  constructor
  · rintro ⟨c, hc, rfl⟩
    exact hbij.mapsTo ((mem_coordinates hr).mp hc)
  · intro hc'
    obtain ⟨c, hc, rfl⟩ := hbij.surjOn hc'
    exact ⟨c, (mem_coordinates hr).mpr hc, rfl⟩

theorem numElements_withOrder {l : Layout} {o : List Nat} (hl : l.WellFormed)
    (ho : o.Perm (List.range l.rank)) : (l.withOrder o).numElements = l.numElements := by
  have hlength := (coordinates_withOrder hl ho).length_eq
  rwa [List.length_map, length_coordinates (withOrder_wellFormed hl ho), length_coordinates hl] at hlength

/-- Without padding there are as many elements as cells, so every cell is the offset of one. -/
theorem offsets_of_contiguous {l : Layout} (hl : l.WellFormed) (h : l.isContiguous = true) :
    l.offsets = {n | n < l.memorySize} := by
  have hcount : l.coordinates.length = l.memorySize := by
    rw [length_coordinates hl, numElements_eq_prod, memorySize_eq_prod, beq_iff_eq.mp h]
  have hinj : ∀ c ∈ l.coordinates, ∀ c' ∈ l.coordinates, l.address c = l.address c' → c = c' :=
    fun c hc c' hc' => address_inj hl ((mem_coordinates hl).mp hc) ((mem_coordinates hl).mp hc')
  have hnodup : (l.coordinates.map l.address).Nodup := (nodup_coordinates hl).map_on hinj
  have hsub : l.coordinates.map l.address ⊆ List.range l.memorySize := by
    intro n hn
    obtain ⟨c, hc, rfl⟩ := List.mem_map.mp hn
    exact List.mem_range.mpr (((mem_coordinates hl).mp hc).address_lt hl)
  have hperm : (l.coordinates.map l.address).Perm (List.range l.memorySize) :=
    (List.subperm_of_subset hnodup hsub).perm_of_length_le (by simp [hcount])
  ext n
  constructor
  · rintro ⟨c, hc, hn⟩
    obtain rfl := Except.ok.inj ((hc.entryOffset_eq hl).symm.trans hn)
    exact hc.address_lt hl
  · intro hn
    obtain ⟨c, hc, rfl⟩ := List.mem_map.mp (hperm.mem_iff.mpr (List.mem_range.mpr hn))
    have hin := (mem_coordinates hl).mp hc
    exact ⟨c, hin, hin.entryOffset_eq hl⟩

end Layout

end Emission
