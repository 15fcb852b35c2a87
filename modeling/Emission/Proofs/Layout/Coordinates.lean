import Emission.Layout.Odometer
import Emission.Proofs.Layout.WellFormed
import Mathlib.Data.List.Forall2

/-!
The index space of a layout. Coordinates within the logical sizes are numbered by their position, as
the digits of a number in mixed radix, and an odometer reads them in the order of these numbers.
-/
namespace Emission

/-- The number of coordinates in the order in which they are read, the last one fastest. -/
def position : List Nat → List Nat → Nat
  | _ :: sizes, c :: coordinates => c * sizes.prod + position sizes coordinates
  | _, _ => 0

/-- Each coordinate is below the size along its axis. -/
def Within (sizes coordinates : List Nat) : Prop :=
  List.Forall₂ (fun n c => c < n) sizes coordinates

theorem Within.length_eq {sizes coordinates : List Nat} (h : Within sizes coordinates) :
    coordinates.length = sizes.length :=
  (List.Forall₂.length_eq h).symm

theorem position_lt {sizes coordinates : List Nat} (h : Within sizes coordinates) :
    position sizes coordinates < sizes.prod := by
  induction h with
  | nil => simp [position]
  | @cons n c sizes coordinates hc _ ih =>
    have hstep : (c + 1) * sizes.prod ≤ n * sizes.prod := Nat.mul_le_mul_right _ hc
    rw [Nat.add_mul, Nat.one_mul] at hstep
    simp only [position, List.prod_cons]
    omega

/-- Coordinates with the same position are the same. -/
theorem position_inj {sizes c c' : List Nat} (h : Within sizes c) (h' : Within sizes c')
    (heq : position sizes c = position sizes c') : c = c' := by
  induction h generalizing c' with
  | nil =>
    cases h'
    rfl
  | @cons n x sizes c hx hc ih =>
    obtain ⟨x', c', hx', hc', rfl⟩ := List.forall₂_cons_left_iff.mp h'
    have hlt := position_lt hc
    have hlt' := position_lt hc'
    simp only [position] at heq
    have hdiv := congrArg (· / sizes.prod) heq
    simp only [Nat.mul_comm _ sizes.prod, Nat.mul_add_div (Nat.zero_lt_of_lt hlt),
      Nat.div_eq_of_lt hlt, Nat.div_eq_of_lt hlt', Nat.add_zero] at hdiv
    subst hdiv
    rw [ih hc' (by omega)]

theorem within_origin {sizes : List Nat} (h : 0 < sizes.prod) :
    Within sizes (sizes.map fun _ => 0) := by
  induction sizes with
  | nil => exact List.Forall₂.nil
  | cons n sizes ih =>
    simp only [List.prod_cons] at h
    exact List.Forall₂.cons (Nat.pos_of_mul_pos_right h) (ih (Nat.pos_of_mul_pos_left h))

theorem position_origin (sizes : List Nat) : position sizes (sizes.map fun _ => 0) = 0 := by
  induction sizes with
  | nil => rfl
  | cons n sizes ih => simp only [List.map_cons, position, ih, Nat.zero_mul]

/-- A successor is the coordinates with the next position, and only the last ones have none. -/
theorem successor?_spec {sizes c : List Nat} (h : Within sizes c) :
    match successor? sizes c with
    | some c' => Within sizes c' ∧ position sizes c' = position sizes c + 1
    | none => position sizes c + 1 = sizes.prod := by
  induction h with
  | nil => simp [successor?, position]
  | @cons n x sizes c hx hc ih =>
    simp only [successor?]
    cases hrest : successor? sizes c with
    | some rest =>
      simp only [hrest] at ih
      exact ⟨List.Forall₂.cons hx ih.1, by simp only [position, ih.2, Nat.add_assoc]⟩
    | none =>
      simp only [hrest] at ih
      have hpos : 0 < sizes.prod := by omega
      have hzeros : c.map (fun _ => 0) = sizes.map (fun _ => 0) := by
        simp only [List.map_const', (show c.length = sizes.length from Within.length_eq hc)]
      by_cases hnext : x + 1 < n
      · simp only [hnext, if_true]
        refine ⟨List.Forall₂.cons hnext (hzeros ▸ within_origin hpos), ?_⟩
        simp only [position, hzeros, position_origin, Nat.add_mul, Nat.one_mul]
        omega
      · simp only [hnext, if_false]
        obtain rfl : n = x + 1 := by omega
        simp only [position, List.prod_cons, Nat.add_mul, Nat.one_mul]
        omega

namespace Odometer

theorem take_succ (n : Nat) (sizes c : List Nat) :
    take (n + 1) ⟨sizes, some c⟩ = c :: take n ⟨sizes, successor? sizes c⟩ := rfl

/-- From some coordinates on, an odometer reads the coordinates with the positions that follow. -/
theorem take_from {sizes c : List Nat} (h : Within sizes c) (n : Nat)
    (hn : position sizes c + n ≤ sizes.prod) :
    (∀ c' ∈ take n ⟨sizes, some c⟩, Within sizes c') ∧
      (take n ⟨sizes, some c⟩).map (position sizes) = List.range' (position sizes c) n := by
  induction n generalizing c with
  | zero => exact ⟨by simp [take], rfl⟩
  | succ n ih =>
    rw [take_succ]
    have hspec := successor?_spec h
    cases hnext : successor? sizes c with
    | none =>
      simp only [hnext] at hspec
      obtain rfl : n = 0 := by omega
      exact ⟨by simpa [take] using h, rfl⟩
    | some c' =>
      simp only [hnext] at hspec
      obtain ⟨hwithin, hmap⟩ := ih hspec.1 (by omega)
      refine ⟨List.forall_mem_cons.mpr ⟨h, hwithin⟩, ?_⟩
      rw [List.map_cons, hmap, hspec.2, List.range'_succ]

/-- From the start, an odometer reads the coordinates of its space by their positions. -/
theorem take_start {sizes : List Nat} (n : Nat) (hn : n ≤ sizes.prod) :
    (∀ c ∈ take n (start sizes), Within sizes c) ∧
      (take n (start sizes)).map (position sizes) = List.range n := by
  unfold start
  by_cases hzero : sizes.contains 0
  · have hprod : ¬ 0 < sizes.prod := fun h =>
      Nat.lt_irrefl 0 (List.prod_pos_iff_forall_pos_nat.mp h 0 (by simpa using hzero))
    obtain rfl : n = 0 := by omega
    exact ⟨by simp [take], rfl⟩
  · have hpos : 0 < sizes.prod := by
      refine List.prod_pos_iff_forall_pos_nat.mpr fun m hm => Nat.pos_of_ne_zero fun h => ?_
      exact hzero (by simpa [h] using hm)
    simp only [hzero, if_false, Bool.false_eq_true]
    obtain ⟨hwithin, hmap⟩ := take_from (within_origin hpos) n (by rw [position_origin]; omega)
    exact ⟨hwithin, by rw [hmap, position_origin, List.range_eq_range']⟩

end Odometer

namespace Layout

/-- Coordinates of the layout's logical index space. -/
abbrev InRange (l : Layout) (coordinates : List Nat) : Prop := Within l.logicalSize coordinates

theorem nodup_order {l : Layout} (hl : l.WellFormed) : l.order.Nodup :=
  hl.axes.nodup_iff.mpr List.nodup_range

theorem axis_lt {l : Layout} (hl : l.WellFormed) {d : Dimension} (hd : d ∈ l.dims) :
    d.axis < l.rank :=
  List.mem_range.mp (hl.axes.mem_iff.mp (List.mem_map.mpr ⟨d, hd, rfl⟩))

theorem sizeAlong_axis {l : Layout} (hl : l.WellFormed) {d : Dimension} (hd : d ∈ l.dims) :
    l.sizeAlong d.axis = d.size := by
  unfold sizeAlong
  cases hfind : l.dims.find? (·.axis == d.axis) with
  | none =>
    have habsent := List.find?_eq_none.mp hfind d hd
    simp at habsent
  | some d' =>
    have haxis : d'.axis = d.axis := by simpa using List.find?_some hfind
    have hmem := List.mem_of_find?_eq_some hfind
    rw [List.inj_on_of_nodup_map (nodup_order hl) hmem hd haxis]

theorem getElem?_logicalSize {l : Layout} (hl : l.WellFormed) {d : Dimension} (hd : d ∈ l.dims) :
    l.logicalSize[d.axis]? = some d.size := by
  rw [logicalSize, List.getElem?_map, List.getElem?_range (axis_lt hl hd), Option.map_some,
    sizeAlong_axis hl hd]

/-- The logical sizes are the physical ones in another order. -/
theorem logicalSize_perm {l : Layout} (hl : l.WellFormed) : l.logicalSize.Perm l.size := by
  have hsize : l.size = l.order.map l.sizeAlong := by
    rw [size, order, List.map_map]
    exact List.map_congr_left fun d hd => (sizeAlong_axis hl hd).symm
  rw [hsize, logicalSize]
  exact (hl.axes.map l.sizeAlong).symm

theorem prod_logicalSize {l : Layout} (hl : l.WellFormed) :
    l.logicalSize.prod = l.numElements :=
  (logicalSize_perm hl).prod_nat

theorem InRange.length_eq_rank {l : Layout} {coordinates : List Nat} (hc : l.InRange coordinates) :
    coordinates.length = l.rank :=
  hc.length_eq.trans l.length_logicalSize

/-- The coordinate that a dimension of the layout holds is below the dimension's size. -/
theorem InRange.coordinate {l : Layout} (hl : l.WellFormed) {coordinates : List Nat}
    (hc : l.InRange coordinates) {d : Dimension} (hd : d ∈ l.dims) :
    ∃ n, coordinates[d.axis]? = some n ∧ n < d.size := by
  have hlt : d.axis < coordinates.length := by
    rw [hc.length_eq_rank]
    exact axis_lt hl hd
  refine ⟨coordinates[d.axis], List.getElem?_eq_getElem hlt, ?_⟩
  have hsize := getElem?_logicalSize hl hd
  obtain ⟨hlt', heq⟩ := List.getElem?_eq_some_iff.mp hsize
  have hget := hc.get hlt' hlt
  simp only [List.get_eq_getElem, heq] at hget
  exact hget

theorem coordinates_spec {l : Layout} (hl : l.WellFormed) :
    (∀ c ∈ l.coordinates, l.InRange c) ∧
      l.coordinates.map (position l.logicalSize) = List.range l.numElements :=
  Odometer.take_start l.numElements (Nat.le_of_eq (prod_logicalSize hl).symm)

theorem length_coordinates {l : Layout} (hl : l.WellFormed) :
    l.coordinates.length = l.numElements := by
  have h := congrArg List.length (coordinates_spec hl).2
  simpa only [List.length_map, List.length_range] using h

/-- The coordinates are read by their positions. -/
theorem position_getElem {l : Layout} (hl : l.WellFormed) (i : Nat)
    (hi : i < l.coordinates.length) : position l.logicalSize l.coordinates[i] = i := by
  have h : (l.coordinates.map (position l.logicalSize))[i]? = (List.range l.numElements)[i]? := by
    rw [(coordinates_spec hl).2]
  rw [List.getElem?_map, List.getElem?_eq_getElem hi, Option.map_some,
    List.getElem?_range (by rwa [← length_coordinates hl])] at h
  exact Option.some.inj h

/-- Coordinates in range occur at their position. -/
theorem getElem?_position {l : Layout} (hl : l.WellFormed) {c : List Nat} (hc : l.InRange c) :
    l.coordinates[position l.logicalSize c]? = some c := by
  have hlt : position l.logicalSize c < l.coordinates.length := by
    rw [length_coordinates hl, ← prod_logicalSize hl]
    exact position_lt hc
  rw [List.getElem?_eq_getElem hlt]
  have hin := (coordinates_spec hl).1 _ (List.getElem_mem hlt)
  exact congrArg some (position_inj hin hc (position_getElem hl _ hlt))

theorem mem_coordinates {l : Layout} (hl : l.WellFormed) {c : List Nat} :
    c ∈ l.coordinates ↔ l.InRange c :=
  ⟨(coordinates_spec hl).1 c, fun hc => List.mem_of_getElem? (getElem?_position hl hc)⟩

theorem coordinates_congr {l r : Layout} (hl : l.WellFormed) (hr : r.WellFormed)
    (h : l.logicalSize = r.logicalSize) : l.coordinates = r.coordinates := by
  have hcount : l.numElements = r.numElements := by
    rw [← prod_logicalSize hl, ← prod_logicalSize hr, h]
  rw [coordinates, coordinates, firstCoordinates, firstCoordinates, h, hcount]

theorem coordinates_scalar : scalar.coordinates = [[]] := rfl

end Layout

end Emission
