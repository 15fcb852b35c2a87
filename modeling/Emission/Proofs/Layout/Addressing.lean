import Emission.Layout.Offset
import Emission.Proofs.Layout.Coordinates
import Mathlib.Algebra.BigOperators.Group.List.Lemmas

/-!
Addresses within a layout. The address of coordinates is the exact sum of which the entry offset is
computed step by step in words. Coordinates in range have addresses below the memory size, so none
of the steps overflows, and different coordinates have different addresses. In a packed layout the
address is the position.
-/
namespace Emission

/-- Where the coordinates lie along the dimension, counted from its first cell. -/
def Dimension.place (d : Dimension) (coordinates : List Nat) : Nat :=
  coordinates[d.axis]?.getD 0 + d.offset

namespace Layout

/-- The sum over the dimensions of place times stride. -/
def address (l : Layout) (coordinates : List Nat) : Nat :=
  (l.dims.map fun d => d.place coordinates * d.stride).sum

theorem trailing_cons {d : Dimension} {dims : List Dimension}
    (hs : (d :: dims).map (·.stride) = trailing ((d :: dims).map (·.extent))) :
    d.stride = (dims.map (·.extent)).prod ∧
      dims.map (·.stride) = trailing (dims.map (·.extent)) := by
  simpa only [List.map_cons, trailing, List.cons.injEq] using hs

/-- Places below the extents are the digits of a number below the product of the extents. -/
theorem sum_places_lt (f : Dimension → Nat) {dims : List Dimension}
    (hs : dims.map (·.stride) = trailing (dims.map (·.extent)))
    (hf : ∀ d ∈ dims, f d < d.extent) :
    (dims.map fun d => f d * d.stride).sum < (dims.map (·.extent)).prod := by
  induction dims with
  | nil => simp
  | cons d dims ih =>
    obtain ⟨hstride, hs⟩ := trailing_cons hs
    obtain ⟨hd, hf⟩ := List.forall_mem_cons.mp hf
    have hrest := ih hs hf
    have hstep : (f d + 1) * d.stride ≤ d.extent * d.stride := Nat.mul_le_mul_right _ hd
    rw [Nat.add_mul, Nat.one_mul] at hstep
    simp only [List.map_cons, List.sum_cons, List.prod_cons, ← hstride] at hrest ⊢
    omega

/-- Equal numbers have equal digits. -/
theorem places_eq_of_sum_eq (f g : Dimension → Nat) {dims : List Dimension}
    (hs : dims.map (·.stride) = trailing (dims.map (·.extent)))
    (hf : ∀ d ∈ dims, f d < d.extent) (hg : ∀ d ∈ dims, g d < d.extent)
    (heq : (dims.map fun d => f d * d.stride).sum = (dims.map fun d => g d * d.stride).sum) :
    ∀ d ∈ dims, f d = g d := by
  induction dims with
  | nil => simp
  | cons d dims ih =>
    obtain ⟨hstride, hs⟩ := trailing_cons hs
    have hf' := List.forall_mem_cons.mp hf
    have hg' := List.forall_mem_cons.mp hg
    have hflt := sum_places_lt f hs hf'.2
    have hglt := sum_places_lt g hs hg'.2
    rw [← hstride] at hflt hglt
    simp only [List.map_cons, List.sum_cons] at heq
    have hfirst : f d = g d := by
      have hdiv := congrArg (· / d.stride) heq
      simpa only [Nat.mul_comm _ d.stride, Nat.mul_add_div (Nat.zero_lt_of_lt hflt),
        Nat.div_eq_of_lt hflt, Nat.div_eq_of_lt hglt, Nat.add_zero] using hdiv
    rw [hfirst] at heq
    exact List.forall_mem_cons.mpr ⟨hfirst, ih hs hf'.2 hg'.2 (Nat.add_left_cancel heq)⟩

theorem InRange.place_lt {l : Layout} (hl : l.WellFormed) {c : List Nat} (hc : l.InRange c)
    {d : Dimension} (hd : d ∈ l.dims) : d.place c < d.extent := by
  obtain ⟨n, hn, hlt⟩ := hc.coordinate hl hd
  have hfits := hl.fits d hd
  simp only [Dimension.place, hn, Option.getD_some]
  omega

/-- Coordinates in range lie within the allocated cells. -/
theorem InRange.address_lt {l : Layout} (hl : l.WellFormed) {c : List Nat} (hc : l.InRange c) :
    l.address c < l.memorySize :=
  sum_places_lt (·.place c) hl.strides fun _ hd => hc.place_lt hl hd

/-- Different coordinates in range have different addresses. -/
theorem address_inj {l : Layout} (hl : l.WellFormed) {c c' : List Nat} (hc : l.InRange c)
    (hc' : l.InRange c') (heq : l.address c = l.address c') : c = c' := by
  have hplaces := places_eq_of_sum_eq (·.place c) (·.place c') hl.strides
    (fun _ hd => hc.place_lt hl hd) (fun _ hd => hc'.place_lt hl hd) heq
  have hrank := hc.length_eq_rank
  refine List.ext_getElem (hrank.trans hc'.length_eq_rank.symm) fun i hi hi' => ?_
  -- some dimension holds each axis
  have hmem : i ∈ l.order := hl.axes.mem_iff.mpr (List.mem_range.mpr (hrank ▸ hi))
  obtain ⟨d, hd, rfl⟩ := List.mem_map.mp hmem
  have hplace := hplaces d hd
  simp only [Dimension.place, List.getElem?_eq_getElem hi, List.getElem?_eq_getElem hi',
    Option.getD_some] at hplace
  omega

/-- A term is computed when the place and the term itself are words. -/
theorem term?_eq_some_iff {d : Dimension} {coordinates : List Nat}
    (hd : d.axis < coordinates.length) (n : Nat) : d.term? coordinates = some n ↔
      d.place coordinates < wordLimit ∧ d.place coordinates * d.stride < wordLimit ∧
        d.place coordinates * d.stride = n := by
  have hplace : d.place coordinates = coordinates[d.axis] + d.offset := by
    simp only [Dimension.place, List.getElem?_eq_getElem hd, Option.getD_some]
  unfold Dimension.term?
  rw [List.getElem?_eq_getElem hd, hplace]
  simp only [Option.bind_eq_bind, Option.bind_some, Option.bind_eq_some_iff,
    checkedAdd_eq_some_iff, checkedMul_eq_some_iff]
  constructor
  · rintro ⟨_, ⟨hlt, rfl⟩, hterm⟩
    exact ⟨hlt, hterm⟩
  · rintro ⟨hlt, hterm⟩
    exact ⟨_, ⟨hlt, rfl⟩, hterm⟩

/-- A running total is computed when every place and the whole sum are words, and then it is exact:
the totals on the way are no larger than the sum. -/
theorem offsetFrom?_eq_some_iff {coordinates : List Nat} {dims : List Dimension} (total n : Nat)
    (hc : ∀ d ∈ dims, d.axis < coordinates.length) (htotal : total < wordLimit) :
    offsetFrom? coordinates dims total = some n ↔
      (∀ d ∈ dims, d.place coordinates < wordLimit) ∧
        total + (dims.map fun d => d.place coordinates * d.stride).sum < wordLimit ∧
        total + (dims.map fun d => d.place coordinates * d.stride).sum = n := by
  induction dims generalizing total with
  | nil => simp [offsetFrom?, htotal]
  | cons d dims ih =>
    obtain ⟨hd, hc⟩ := List.forall_mem_cons.mp hc
    unfold offsetFrom?
    simp only [Option.bind_eq_bind, Option.bind_eq_some_iff, term?_eq_some_iff hd,
      checkedAdd_eq_some_iff, List.forall_mem_cons, List.map_cons, List.sum_cons, ← Nat.add_assoc]
    constructor
    · rintro ⟨_, ⟨hplace, -, rfl⟩, _, ⟨hlt, rfl⟩, hrest⟩
      obtain ⟨hplaces, hsum⟩ := (ih _ hc hlt).mp hrest
      exact ⟨⟨hplace, hplaces⟩, hsum⟩
    · rintro ⟨⟨hplace, hplaces⟩, hlt, heq⟩
      have hstep : total + d.place coordinates * d.stride < wordLimit := by omega
      have hterm : d.place coordinates * d.stride < wordLimit := by omega
      exact ⟨_, ⟨hplace, hterm, rfl⟩, _, ⟨hstep, rfl⟩, (ih _ hc hstep).mpr ⟨hplaces, hlt, heq⟩⟩

/-- Whatever the coordinates, an offset that is computed is their exact address. -/
theorem entryOffset_eq_ok_iff {l : Layout} (hl : l.WellFormed) {c : List Nat} {n : Nat} :
    l.entryOffset c = .ok n ↔ c.length = l.rank ∧ (∀ d ∈ l.dims, d.place c < wordLimit) ∧
      l.address c < wordLimit ∧ l.address c = n := by
  unfold entryOffset checkRank
  by_cases hrank : c.length = l.rank
  · have haxis : ∀ d ∈ l.dims, d.axis < c.length := fun d hd => hrank ▸ axis_lt hl hd
    have hoffset := offsetFrom?_eq_some_iff 0 n haxis (Nat.zero_lt_of_lt one_lt_wordLimit)
    rw [Nat.zero_add] at hoffset
    rw [if_pos hrank, ok_bind, address, and_iff_right hrank, ← hoffset]
    cases offsetFrom? c l.dims 0 <;> simp
  · simp [hrank]

theorem extent_pos {l : Layout} (hl : l.WellFormed) {c : List Nat} (hc : l.InRange c) :
    ∀ n ∈ l.extent, 0 < n := by
  intro n hn
  obtain ⟨d, hd, rfl⟩ := List.mem_map.mp hn
  exact Nat.zero_lt_of_lt (hc.place_lt hl hd)

/-- Without an extent of zero, no extent exceeds the memory size. -/
theorem InRange.extent_le {l : Layout} (hl : l.WellFormed) {c : List Nat} (hc : l.InRange c)
    {d : Dimension} (hd : d ∈ l.dims) : d.extent ≤ l.memorySize :=
  Nat.le_of_dvd (Nat.zero_lt_of_lt (hc.address_lt hl))
    (List.dvd_prod (List.mem_map.mpr ⟨d, hd, rfl⟩))

/-- No step towards the offset of coordinates in range overflows, and the offset is the address. -/
theorem InRange.entryOffset_eq {l : Layout} (hl : l.WellFormed) {c : List Nat}
    (hc : l.InRange c) : l.entryOffset c = .ok (l.address c) := by
  have hmemory : l.memorySize < wordLimit := hl.words.2.1.prod_lt
  refine (entryOffset_eq_ok_iff hl).mpr
    ⟨hc.length_eq_rank, fun d hd => ?_, ?_, rfl⟩
  · exact Nat.lt_of_lt_of_le (hc.place_lt hl hd) (Nat.le_trans (hc.extent_le hl hd) (Nat.le_of_lt hmemory))
  · exact Nat.lt_trans (hc.address_lt hl) hmemory

/-- Addressing is in bounds, injective and exact. Coordinates in range have an offset below the memory
size, different ones have different offsets, and an offset that is computed for any coordinates is
their address; it is refused when there are too few or too many of them or a step is no word. -/
theorem entryOffset_exact {l : Layout} (hl : l.Obtainable) :
    (∀ c, l.InRange c → ∃ n, l.entryOffset c = .ok n ∧ n < l.memorySize) ∧
    (∀ c c', l.InRange c → l.InRange c' → c ≠ c' → l.entryOffset c ≠ l.entryOffset c') ∧
    ∀ c n, l.entryOffset c = .ok n ↔ c.length = l.rank ∧
      (∀ d ∈ l.dims, d.place c < wordLimit) ∧ l.address c < wordLimit ∧ l.address c = n := by
  have hwell := hl.wellFormed
  refine ⟨fun c hc => ⟨_, hc.entryOffset_eq hwell, hc.address_lt hwell⟩, ?_,
    fun c n => entryOffset_eq_ok_iff hwell⟩
  intro c c' hc hc' hne heq
  rw [hc.entryOffset_eq hwell, hc'.entryOffset_eq hwell] at heq
  exact hne (address_inj hwell hc hc' (Except.ok.inj heq))

/-- A padded layout of two axes that is stored with the second axis first. -/
theorem entryOffset_exact_padded :
    let l : Layout := ⟨[⟨2, 4, 1, 7, 1⟩, ⟨3, 7, 2, 1, 0⟩]⟩
    l.Obtainable ∧ l.InRange [2, 1] ∧ l.InRange [1, 1] ∧
      (∃ n, l.entryOffset [2, 1] = .ok n ∧ n < 28) ∧
      l.entryOffset [2, 1] ≠ l.entryOffset [1, 1] ∧ l.entryOffset [2, 1] = .ok 18 := by
  intro l
  have hl : l.Obtainable := ⟨.reordered (.padded [2, 3] [1, 2]) [1, 0], rfl⟩
  have hc : l.InRange [2, 1] := .cons (by decide) (.cons (by decide) .nil)
  have hc' : l.InRange [1, 1] := .cons (by decide) (.cons (by decide) .nil)
  obtain ⟨hbound, hinj, hexact⟩ := entryOffset_exact hl
  exact ⟨hl, hc, hc', hbound _ hc, hinj _ _ hc hc' (by decide),
    (hexact [2, 1] 18).mpr ⟨rfl, by decide, by decide, rfl⟩⟩

/-- In a packed layout the terms of an address are those of the position. -/
theorem sum_packed (c : List Nat) (ns : List Nat) (k : Nat) (hc : c.length = k + ns.length) :
    ((assemble ns ns (ns.map fun _ => 0) (trailing ns) (List.range' k ns.length)).map
      fun d => d.place c * d.stride).sum = position ns (c.drop k) := by
  induction ns generalizing k with
  | nil => simp [assemble, position]
  | cons n ns ih =>
    simp only [List.length_cons] at hc
    have hk : k < c.length := by omega
    rw [List.drop_eq_getElem_cons hk]
    simp only [List.map_cons, trailing, List.length_cons, List.range'_succ, assemble, position,
      List.sum_cons]
    rw [ih (k + 1) (by omega)]
    simp only [Dimension.place, List.getElem?_eq_getElem hk, Option.getD_some, Nat.add_zero]

theorem packed_logicalSize {ns : List Nat} {l : Layout} (h : ofSizes ns = .ok l) :
    l.logicalSize = ns := by
  have b := ofSizes_built h
  have hl := ofSizes_wellFormed h
  have hrank : l.rank = ns.length := by rw [← l.length_parts.1, b.size_eq]
  calc l.logicalSize = l.order.map l.sizeAlong := by rw [b.order_eq, logicalSize, hrank]
    _ = l.size := by
      rw [order, size, List.map_map]
      exact List.map_congr_left fun d hd => sizeAlong_axis hl hd
    _ = ns := b.size_eq

theorem packed_address {ns c : List Nat} {l : Layout} (h : ofSizes ns = .ok l)
    (hc : Within ns c) : l.address c = position ns c := by
  have b := ofSizes_built h
  have hsum := sum_packed c ns 0 (by rw [hc.length_eq, Nat.zero_add])
  rw [List.drop_zero, ← List.range_eq_range'] at hsum
  rw [address, b.dims_eq]
  exact hsum

/-- In a packed layout the coordinates are read in the order of their addresses. -/
theorem packed_address_getElem {ns : List Nat} {l : Layout} (h : ofSizes ns = .ok l) {i : Nat}
    (hi : i < l.coordinates.length) : l.address l.coordinates[i] = i := by
  have hl := ofSizes_wellFormed h
  have hin := (coordinates_spec hl).1 _ (List.getElem_mem hi)
  rw [InRange, packed_logicalSize h] at hin
  rw [packed_address h hin, ← packed_logicalSize h]
  exact position_getElem hl i hi

/-- A packed layout has the coordinates of another one at consecutive addresses. -/
theorem packed_addresses {shape l : Layout} (hshape : shape.WellFormed)
    (h : ofSizes shape.logicalSize = .ok l) : (∀ c ∈ shape.coordinates, l.InRange c) ∧
      shape.coordinates.map l.address = List.range' 0 shape.coordinates.length := by
  obtain ⟨hin, hposition⟩ := coordinates_spec hshape
  refine ⟨fun c hc => ?_, ?_⟩
  · rw [InRange, packed_logicalSize h]
    exact hin c hc
  · rw [length_coordinates hshape, ← List.range_eq_range', ← hposition]
    exact List.map_congr_left fun c hc => packed_address h (hin c hc)

theorem packed_volume {ns : List Nat} {l : Layout} (h : ofSizes ns = .ok l) :
    l.numElements = ns.prod ∧ l.memorySize = ns.prod := by
  have b := ofSizes_built h
  exact ⟨by rw [numElements_eq_prod, b.size_eq], by rw [memorySize_eq_prod, b.extent_eq]⟩

/-- A product of some of the numbers is no larger than that of all. -/
theorem trailing_le {ns : List Nat} (hpos : ∀ n ∈ ns, 0 < n) : ∀ s ∈ trailing ns, s ≤ ns.prod := by
  induction ns with
  | nil => simp [trailing]
  | cons n ns ih =>
    obtain ⟨hn, hpos⟩ := List.forall_mem_cons.mp hpos
    have hle : ns.prod ≤ (n :: ns).prod := by
      rw [List.prod_cons]
      exact Nat.le_mul_of_pos_left _ hn
    exact List.forall_mem_cons.mpr ⟨hle, fun s hs => Nat.le_trans (ih hpos s hs) hle⟩

/-- Sizes without a zero whose product is a word have a packed layout. -/
theorem exists_packed {ns : List Nat} (hpos : ∀ n ∈ ns, 0 < n) (h : ns.prod < wordLimit) :
    ∃ l, ofSizes ns = .ok l :=
  ⟨_, build_ok (wordVolume_of_pos hpos h) (wordVolume_of_pos hpos h) fun s hs =>
    Nat.lt_of_le_of_lt (trailing_le hpos s hs) h⟩

/-- The logical shape of a layout that has elements has a packed layout. -/
theorem exists_packed_logicalSize {l : Layout} (hl : l.WellFormed) (h : 0 < l.numElements) :
    ∃ l', ofSizes l.logicalSize = .ok l' := by
  rw [← prod_logicalSize hl] at h
  refine exists_packed (List.prod_pos_iff_forall_pos_nat.mp h) ?_
  rw [prod_logicalSize hl]
  exact hl.words.1.prod_lt

end Layout

end Emission
