import Emission.Proofs.Layout.Packing

/-!
How layouts are represented. The numbers that recipes are given are words, and then all numbers of the layout
are words too: the bounds of the active positions, the strides, and the partial products from which the
numbers of elements and of cells are computed. So these products are exact although no step of them is
checked. A size of zero cuts products short, which is why the strides are not bounded by the number of cells.
-/
namespace Emission

/-- The number of dimensions that a recipe describes. -/
def Recipe.rank : Recipe → Nat
  | scalar => 0
  | sizes size => size.length
  | padded size _ => size.length
  | parts size _ _ _ => size.length
  | reordered inner _ => inner.rank

/-- All numbers that a recipe is given are words. -/
def Recipe.OfWords : Recipe → Prop
  | scalar => True
  | sizes size => ∀ n ∈ size, n < wordLimit
  | padded size padding => ∀ n ∈ size ++ padding, n < wordLimit
  | parts size extent offset order => ∀ n ∈ size ++ extent ++ offset ++ order, n < wordLimit
  | reordered inner order => inner.OfWords ∧ ∀ n ∈ order, n < wordLimit

instance Recipe.decidableOfWords : (r : Recipe) → Decidable r.OfWords
  | scalar => isTrue trivial
  | sizes size => inferInstanceAs (Decidable (∀ n ∈ size, n < wordLimit))
  | padded size padding => inferInstanceAs (Decidable (∀ n ∈ size ++ padding, n < wordLimit))
  | parts size extent offset order =>
    inferInstanceAs (Decidable (∀ n ∈ size ++ extent ++ offset ++ order, n < wordLimit))
  | reordered inner order =>
    have := inner.decidableOfWords
    inferInstanceAs (Decidable (inner.OfWords ∧ ∀ n ∈ order, n < wordLimit))

namespace Layout

/-- The product of some sizes in words, taken from the left without a check. -/
def wordProduct (sizes : List Nat) : Nat :=
  sizes.foldl (fun p n => p * n % wordLimit) 1

theorem foldl_mod_eq {ns : List Nat} {p : Nat} (h : ∀ i, p * (ns.take i).prod < wordLimit) :
    ns.foldl (fun p n => p * n % wordLimit) p = p * ns.prod := by
  induction ns generalizing p with
  | nil => simp
  | cons n ns ih =>
    have hstep : p * n < wordLimit := by simpa using h 1
    have hrest : ∀ i, p * n * (ns.take i).prod < wordLimit := by
      intro i
      simpa only [List.take_succ_cons, List.prod_cons, ← Nat.mul_assoc] using h (i + 1)
    rw [List.foldl_cons, Nat.mod_eq_of_lt hstep, ih hrest, List.prod_cons, Nat.mul_assoc]

/-- A product whose partial products are words is exact. -/
theorem WordVolume.wordProduct_eq {ns : List Nat} (h : WordVolume ns) : wordProduct ns = ns.prod := by
  have hone : ∀ i, 1 * (ns.take i).prod < wordLimit := by
    intro i
    rw [Nat.one_mul]
    exact h i
  rw [wordProduct, foldl_mod_eq hone, Nat.one_mul]

theorem getElem?_trailing (ns : List Nat) (d : Nat) :
    (trailing ns)[d]? = if d < ns.length then some (ns.drop (d + 1)).prod else none := by
  induction ns generalizing d with
  | nil => simp [trailing]
  | cons n ns ih =>
    cases d with
    | zero => simp [trailing]
    | succ d => simpa [trailing] using ih d

/-- The extents of sizes with padding on both sides. -/
def paddedExtent (size padding : List Nat) : List Nat :=
  List.zipWith (fun n p => n + 2 * p) size padding

theorem padded?_eq_some_iff (n p e : Nat) :
    padded? n p = some e ↔ n + 2 * p < wordLimit ∧ n + 2 * p = e := by
  unfold padded?
  simp only [Option.bind_eq_bind, Option.bind_eq_some_iff, checkedMul_eq_some_iff,
    checkedAdd_eq_some_iff, Nat.mul_comm p]
  constructor
  · rintro ⟨_, ⟨-, rfl⟩, hsum⟩
    exact hsum
  · rintro ⟨hlt, heq⟩
    have hpadding : 2 * p < wordLimit := by omega
    exact ⟨_, ⟨hpadding, rfl⟩, hlt, heq⟩

/-- Sizes are padded when all their extents are words. -/
theorem mapM_padded_eq_some_iff (size padding extent : List Nat) :
    ((size.zip padding).mapM fun (n, p) => padded? n p) = some extent ↔
      (∀ n ∈ paddedExtent size padding, n < wordLimit) ∧ paddedExtent size padding = extent := by
  induction size generalizing padding extent with
  | nil => simp [paddedExtent]
  | cons n size ih =>
    cases padding with
    | nil => simp [paddedExtent]
    | cons p padding =>
      rw [List.zip_cons_cons, List.mapM_cons, Option.bind_eq_bind, Option.bind_eq_some_iff]
      simp only [Option.bind_eq_bind, Option.bind_eq_some_iff, ih, padded?_eq_some_iff, paddedExtent,
        List.zipWith_cons_cons, List.forall_mem_cons]
      constructor
      · rintro ⟨_, ⟨hn, rfl⟩, _, ⟨hrest, rfl⟩, ⟨⟩⟩
        exact ⟨⟨hn, hrest⟩, rfl⟩
      · rintro ⟨⟨hn, hrest⟩, rfl⟩
        exact ⟨_, ⟨hn, rfl⟩, _, ⟨hrest, rfl⟩, rfl⟩

/-- No part is cut short, and the extents are words. -/
theorem rank_of_build {r : Recipe} {l : Layout} (hr : r.OfWords) (h : r.build = .ok l) :
    l.rank = r.rank ∧ ∀ n ∈ l.extent, n < wordLimit := by
  induction r generalizing l with
  | scalar =>
    obtain rfl := Except.ok.inj h
    exact ⟨rfl, by simp [extent, Layout.scalar]⟩
  | sizes size =>
    have b := ofSizes_built h
    refine ⟨by rw [← l.length_parts.1, b.size_eq, Recipe.rank], ?_⟩
    rw [b.extent_eq]
    exact hr
  | padded size padding =>
    obtain ⟨extent, hextent, hparts⟩ := withPadding_eq_ok h
    have b := (ofParts_built hparts).1
    refine ⟨by rw [← l.length_parts.1, b.size_eq, Recipe.rank], ?_⟩
    obtain ⟨hwords, rfl⟩ := (mapM_padded_eq_some_iff _ _ _).mp hextent
    rw [b.extent_eq]
    exact hwords
  | parts size extent offset order =>
    have b := (ofParts_built h).1
    refine ⟨by rw [← l.length_parts.1, b.size_eq, Recipe.rank], fun n hn => hr n ?_⟩
    rw [b.extent_eq] at hn
    simp [hn]
  | reordered inner order ih =>
    obtain ⟨l', hinner, h⟩ := bind_eq_ok_iff.mp h
    obtain ⟨hrank, hwords⟩ := ih hr.1 hinner
    obtain ⟨hlength, -, rfl⟩ := reorder_eq_ok h
    refine ⟨?_, ?_⟩
    · rw [rank, List.length_zipWith, hlength, rank, Nat.min_self, ← rank, hrank, Recipe.rank]
    · rw [(zipWith_axis_parts hlength).2.1]
      exact hwords

/-- Whatever recipe a layout comes from, its parts are as many as the dimensions described, its axes are a
permutation, and each dimension has its active positions within its extent, which is a word. A stride is the
exact product of the extents after it, and a word. The products from which the numbers of elements and of cells
are computed are words at every step, so they are exact, and there are no more elements than cells. -/
theorem representation {r : Recipe} {l : Layout} (hr : r.OfWords) (h : r.build = .ok l) :
    (l.size.length = r.rank ∧ l.extent.length = r.rank ∧ l.offset.length = r.rank ∧
      l.stride.length = r.rank ∧ l.order.length = r.rank) ∧
    l.order.Perm (List.range r.rank) ∧
    (∀ d ∈ l.dims, d.offset + d.size ≤ d.extent ∧ d.extent < wordLimit) ∧
    (∀ d < r.rank, (l.extent.drop (d + 1)).prod < wordLimit ∧
      l.stride[d]? = some (l.extent.drop (d + 1)).prod) ∧
    (∀ i, (l.size.take i).prod < wordLimit ∧ (l.extent.take i).prod < wordLimit) ∧
    l.numElements = wordProduct l.size ∧ l.memorySize = wordProduct l.extent ∧
    l.numElements ≤ l.memorySize := by
  have hl := Obtainable.wellFormed ⟨r, h⟩
  obtain ⟨hrank, hextent⟩ := rank_of_build hr h
  obtain ⟨hsize, hcells, hstride⟩ := hl.words
  refine ⟨hrank ▸ l.length_parts, hrank ▸ hl.axes, fun d hd => ⟨hl.fits d hd, ?_⟩, fun d hd => ?_,
    fun i => ⟨hsize i, hcells i⟩, ?_, ?_, hl.numElements_le⟩
  · exact hextent d.extent (List.mem_map.mpr ⟨d, hd, rfl⟩)
  · have hlt : d < l.extent.length := by rwa [l.length_parts.2.1, hrank]
    have heq : l.stride[d]? = some (l.extent.drop (d + 1)).prod := by
      rw [hl.strides, getElem?_trailing, if_pos hlt]
    exact ⟨hstride _ (List.mem_of_getElem? heq), heq⟩
  · rw [hsize.wordProduct_eq, numElements_eq_prod]
  · rw [hcells.wordProduct_eq, memorySize_eq_prod]

/-- A layout without elements, whose extents could not be multiplied in another order. -/
theorem representation_cut :
    let n : Nat := 1099511627776
    let r : Recipe := .reordered (.parts [3, 0, 5] [n, 0, n] [1, 0, 7] [0, 1, 2]) [2, 0, 1]
    let l : Layout := ⟨[⟨3, n, 1, 0, 2⟩, ⟨0, 0, 0, n, 0⟩, ⟨5, n, 7, 1, 1⟩]⟩
    r.OfWords ∧ r.build = .ok l ∧ l.stride[1]? = some n ∧ l.memorySize = wordProduct [n, 0, n] ∧
      wordLimit ≤ n * n := by
  intro n r l
  have hr : r.OfWords := by decide
  have hl : r.build = .ok l := by decide +kernel
  obtain ⟨-, -, -, hstride, -, -, hcells, -⟩ := representation hr hl
  have hextent : l.extent = [n, 0, n] := rfl
  have hmiddle := (hstride 1 (by decide)).2
  rw [hextent] at hmiddle hcells
  have hprod : ([n, 0, n].drop (1 + 1)).prod = n := by decide +kernel
  rw [hprod] at hmiddle
  exact ⟨hr, hl, hmiddle, hcells, by decide⟩

end Layout

end Emission
