import Emission.Proofs.Layout.Addressing
import Mathlib.Algebra.Order.BigOperators.Group.List
import Mathlib.Algebra.Order.Ring.Canonical

/-!
Which shapes have a packed layout. Sizes are packed by multiplying them from the left, for the number of
elements, and from the right, for the strides, and every product on the way has to be a word. A size of zero
makes the whole product zero but not those that leave it out, so the order of the axes matters: a layout that
was accepted with its axes in one order can have a logical shape that is refused. That takes a layout without
elements whose axes are out of their physical order.
-/
namespace Emission.Layout

/-- All products that are made in packing the sizes are words. -/
structure Packs (ns : List Nat) : Prop where
  left : WordVolume ns
  right : ∀ n ∈ trailing ns, n < wordLimit

/-- Sizes are packed or refused as a whole. -/
theorem ofSizes_cases (ns : List Nat) :
    (Packs ns ∧ ∃ l, ofSizes ns = .ok l) ∨
      (¬ Packs ns ∧ ofSizes ns = .error (.invalidArgument (.extentOverflow ns))) := by
  by_cases h : Packs ns
  · exact Or.inl ⟨h, _, build_ok h.left h.left h.right⟩
  · exact Or.inr ⟨h, build_refused fun hwords => h ⟨hwords.1, hwords.2.2⟩⟩

theorem exists_ofSizes_iff (ns : List Nat) : (∃ l, ofSizes ns = .ok l) ↔ Packs ns := by
  rcases ofSizes_cases ns with ⟨h, hl⟩ | ⟨h, hl⟩
  · exact iff_of_true hl h
  · refine iff_of_false ?_ h
    rintro ⟨l, hok⟩
    cases hok.symm.trans hl

theorem ofSizes_unpacked {ns : List Nat} (h : ¬ Packs ns) :
    ofSizes ns = .error (.invalidArgument (.extentOverflow ns)) := by
  rcases ofSizes_cases ns with ⟨hpacks, -⟩ | ⟨-, hl⟩
  · exact absurd hpacks h
  · exact hl

/-- A single element has no sizes. -/
theorem packs_of_isScalar {l : Layout} (h : l.isScalar = true) : Packs l.logicalSize := by
  have hnil : l.logicalSize = [] := by
    rw [logicalSize, rank, List.isEmpty_iff.mp h]
    rfl
  rw [hnil]
  exact (exists_ofSizes_iff []).mp ⟨_, rfl⟩

/-- A row is packed if its length is a word. -/
theorem packs_row {n : Nat} (h : n < wordLimit) : Packs [n] where
  left i := by
    cases i with
    | zero => exact one_lt_wordLimit
    | succ i => simpa using h
  right m hm := by
    obtain rfl : m = 1 := by simpa [trailing] using hm
    exact one_lt_wordLimit

/-- Smaller sizes have smaller strides. -/
theorem trailing_lt_of_le {ns ms : List Nat} (h : List.Forall₂ (· ≤ ·) ns ms) {bound : Nat}
    (hms : ∀ m ∈ trailing ms, m < bound) : ∀ n ∈ trailing ns, n < bound := by
  induction h with
  | nil => exact hms
  | cons hn hrest ih =>
    obtain ⟨hm, hms⟩ := List.forall_mem_cons.mp hms
    exact List.forall_mem_cons.mpr ⟨Nat.lt_of_le_of_lt hrest.prod_le_prod' hm, ih hms⟩

theorem size_le_extent {l : Layout} (hl : l.WellFormed) :
    List.Forall₂ (· ≤ ·) l.size l.extent := by
  rw [size, extent, List.forall₂_map_left_iff, List.forall₂_map_right_iff, List.forall₂_same]
  intro d hd
  have hfits := hl.fits d hd
  omega

/-- There are no more active elements than allocated ones. -/
theorem WellFormed.numElements_le {l : Layout} (hl : l.WellFormed) :
    l.numElements ≤ l.memorySize :=
  (size_le_extent hl).prod_le_prod'

/-- With its axes in physical order, the active sizes of a layout are packed within what is allocated. -/
theorem packs_of_physical {l : Layout} (hl : l.WellFormed) (h : l.order = List.range l.rank) :
    Packs l.logicalSize := by
  have hsize : l.logicalSize = l.size := by
    rw [logicalSize, ← h, order, size, List.map_map]
    exact List.map_congr_left fun d hd => sizeAlong_axis hl hd
  rw [hsize]
  refine ⟨hl.words.1, trailing_lt_of_le (size_le_extent hl) ?_⟩
  rw [← hl.strides]
  exact hl.words.2.2

/-- A layout with elements can be packed in any order. -/
theorem packs_of_pos {l : Layout} (hl : l.WellFormed) (h : 0 < l.numElements) :
    Packs l.logicalSize :=
  (exists_ofSizes_iff _).mp (exists_packed_logicalSize hl h)

end Emission.Layout
