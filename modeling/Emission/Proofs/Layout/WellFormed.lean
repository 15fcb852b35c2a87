import Emission.Layout.Recipe
import Emission.Proofs.Outcome
import Mathlib.Algebra.GroupWithZero.Nat
import Mathlib.Data.List.Nodup
import Mathlib.Data.List.Perm.Subperm

/-!
The layouts that can be had. Whatever the recipe, the axes of a layout are a permutation, every
dimension has room for its active positions, the stride of a dimension is the number of cells of
the dimensions after it, and the partial products of sizes and of extents are words. All facts on
addresses follow from these.
-/
namespace Emission.Layout

theorem one_lt_wordLimit : 1 < wordLimit := by decide

theorem numElements_eq_prod (l : Layout) : l.numElements = l.size.prod := rfl

theorem memorySize_eq_prod (l : Layout) : l.memorySize = l.extent.prod := rfl

/-- Some recipe builds the layout. -/
def Obtainable (l : Layout) : Prop := ∃ r : Recipe, r.build = .ok l

/-- For each number the product of those after it. -/
def trailing : List Nat → List Nat
  | [] => []
  | _ :: ns => ns.prod :: trailing ns

/-- Every product of numbers taken from the left is a word. -/
def WordVolume (ns : List Nat) : Prop := ∀ i, (ns.take i).prod < wordLimit

structure WellFormed (l : Layout) : Prop where
  axes : l.order.Perm (List.range l.rank)
  fits : ∀ d ∈ l.dims, d.offset + d.size ≤ d.extent
  strides : l.stride = trailing l.extent
  words : WordVolume l.size ∧ WordVolume l.extent ∧ ∀ n ∈ l.stride, n < wordLimit

theorem WordVolume.prod_lt {ns : List Nat} (h : WordVolume ns) : ns.prod < wordLimit := by
  simpa only [List.take_length] using h ns.length

theorem checkedMul_eq_some_iff (a b c : Nat) :
    checkedMul a b = some c ↔ a * b < wordLimit ∧ a * b = c := by
  unfold checkedMul
  split <;> simp [*]

theorem checkedAdd_eq_some_iff (a b c : Nat) :
    checkedAdd a b = some c ↔ a + b < wordLimit ∧ a + b = c := by
  unfold checkedAdd
  split <;> simp [*]

theorem checkedAdd_any_le (a b c : Nat) :
    (checkedAdd a b).any (· ≤ c) = true ↔ a + b < wordLimit ∧ a + b ≤ c := by
  unfold checkedAdd
  split <;> simp [*]

theorem foldlM_checkedMul (ns : List Nat) (a : Nat) (ha : a < wordLimit) (p : Nat) :
    ns.foldlM checkedMul a = some p ↔
      (∀ i, a * (ns.take i).prod < wordLimit) ∧ a * ns.prod = p := by
  induction ns generalizing a with
  | nil => simp [ha]
  | cons n ns ih =>
    rw [List.foldlM_cons, Option.bind_eq_bind, Option.bind_eq_some_iff]
    simp only [checkedMul_eq_some_iff, List.prod_cons, ← Nat.mul_assoc]
    constructor
    · rintro ⟨_, ⟨h, rfl⟩, hrest⟩
      obtain ⟨hall, hp⟩ := (ih (a * n) h).mp hrest
      refine ⟨fun i => ?_, hp⟩
      cases i with
      | zero => simpa using ha
      | succ i => simpa only [List.take_succ_cons, List.prod_cons, ← Nat.mul_assoc] using hall i
    · rintro ⟨hall, hp⟩
      have h : a * n < wordLimit := by simpa using hall 1
      refine ⟨a * n, ⟨h, rfl⟩, (ih (a * n) h).mpr ⟨fun i => ?_, hp⟩⟩
      simpa only [List.take_succ_cons, List.prod_cons, ← Nat.mul_assoc] using hall (i + 1)

/-- A volume is a word when all its partial products are, and then it is the exact product. -/
theorem volume?_eq_some_iff (ns : List Nat) (p : Nat) :
    volume? ns = some p ↔ WordVolume ns ∧ ns.prod = p := by
  unfold volume? WordVolume
  rw [foldlM_checkedMul ns 1 (by decide) p]
  simp only [Nat.one_mul]

/-- Without a zero among them, numbers whose product is a word have words as partial products. -/
theorem wordVolume_of_pos {ns : List Nat} (hpos : ∀ n ∈ ns, 0 < n) (h : ns.prod < wordLimit) :
    WordVolume ns := by
  intro i
  have hsplit : (ns.take i).prod * (ns.drop i).prod = ns.prod := by
    rw [← List.prod_append, List.take_append_drop]
  have hdrop : 0 < (ns.drop i).prod :=
    List.prod_pos_iff_forall_pos_nat.mpr fun n hn => hpos n (List.mem_of_mem_drop hn)
  have hle : (ns.take i).prod ≤ (ns.take i).prod * (ns.drop i).prod :=
    Nat.le_mul_of_pos_right _ hdrop
  omega

@[simp] theorem length_trailing (ns : List Nat) : (trailing ns).length = ns.length := by
  induction ns with
  | nil => rfl
  | cons n ns ih => simp only [trailing, List.length_cons, ih]

theorem strides?_eq_some_iff (ns ss : List Nat) :
    strides? ns = some ss ↔ (∀ s ∈ trailing ns, s < wordLimit) ∧ trailing ns = ss := by
  induction ns generalizing ss with
  | nil => simp [strides?, trailing]
  | cons n ns ih =>
    unfold strides?
    rw [Option.bind_eq_bind, Option.bind_eq_some_iff]
    simp only [ih, trailing, List.mem_cons, forall_eq_or_imp]
    cases ns with
    | nil => simp [trailing, wordLimit]
    | cons m ns =>
      simp only [trailing, List.prod_cons, Nat.mul_comm m]
      constructor
      · rintro ⟨_, ⟨hall, rfl⟩, h⟩
        obtain ⟨_, hmul, hss⟩ := Option.bind_eq_some_iff.mp h
        obtain ⟨hlt, rfl⟩ := (checkedMul_eq_some_iff _ _ _).mp hmul
        exact ⟨⟨hlt, hall⟩, Option.some.inj hss⟩
      · rintro ⟨⟨hlt, hall⟩, rfl⟩
        refine ⟨_, ⟨hall, rfl⟩, Option.bind_eq_some_iff.mpr ⟨_, ?_, rfl⟩⟩
        exact (checkedMul_eq_some_iff _ _ _).mpr ⟨hlt, rfl⟩

/-- Lists of one length are the parts of the dimensions assembled from them. -/
theorem assemble_parts {size extent offset stride order : List Nat}
    (he : extent.length = size.length) (ho : offset.length = size.length)
    (hs : stride.length = size.length) (ha : order.length = size.length) :
    let l : Layout := ⟨assemble size extent offset stride order⟩
    l.size = size ∧ l.extent = extent ∧ l.offset = offset ∧ l.stride = stride ∧
      l.order = order := by
  induction size generalizing extent offset stride order with
  | nil =>
    obtain rfl := List.length_eq_zero_iff.mp he
    obtain rfl := List.length_eq_zero_iff.mp ho
    obtain rfl := List.length_eq_zero_iff.mp hs
    obtain rfl := List.length_eq_zero_iff.mp ha
    exact ⟨rfl, rfl, rfl, rfl, rfl⟩
  | cons n size ih =>
    obtain ⟨e, extent, rfl⟩ := List.exists_cons_of_length_eq_add_one he
    obtain ⟨o, offset, rfl⟩ := List.exists_cons_of_length_eq_add_one ho
    obtain ⟨s, stride, rfl⟩ := List.exists_cons_of_length_eq_add_one hs
    obtain ⟨a, order, rfl⟩ := List.exists_cons_of_length_eq_add_one ha
    simp only [List.length_cons, Nat.add_right_cancel_iff] at he ho hs ha
    obtain ⟨h1, h2, h3, h4, h5⟩ := ih he ho hs ha
    exact ⟨congrArg (List.cons n) h1, congrArg (List.cons e) h2, congrArg (List.cons o) h3,
      congrArg (List.cons s) h4, congrArg (List.cons a) h5⟩

/-- What a successful build has checked, and the parts of the layout it gives. -/
structure Built (size extent offset order : List Nat) (l : Layout) : Prop where
  dims_eq : l.dims = assemble size extent offset (trailing extent) order
  size_eq : l.size = size
  extent_eq : l.extent = extent
  offset_eq : l.offset = offset
  stride_eq : l.stride = trailing extent
  order_eq : l.order = order
  words : WordVolume size ∧ WordVolume extent ∧ ∀ n ∈ trailing extent, n < wordLimit

theorem build_eq_ok {size extent offset order : List Nat} {l : Layout}
    (he : extent.length = size.length) (ho : offset.length = size.length)
    (ha : order.length = size.length) (h : build size extent offset order = .ok l) :
    Built size extent offset order l := by
  unfold build at h
  split at h
  case h_2 => cases h
  case h_1 hsize hextent hstride =>
    obtain ⟨hstrides, rfl⟩ := (strides?_eq_some_iff _ _).mp hstride
    obtain rfl := Except.ok.inj h
    obtain ⟨h1, h2, h3, h4, h5⟩ :=
      assemble_parts he ho ((length_trailing extent).trans he) ha
    exact ⟨rfl, h1, h2, h3, h4, h5, ((volume?_eq_some_iff _ _).mp hsize).1,
      ((volume?_eq_some_iff _ _).mp hextent).1, hstrides⟩

/-- A build whose products are all words succeeds. -/
theorem build_ok {size extent offset order : List Nat} (hsize : WordVolume size)
    (hextent : WordVolume extent) (hstride : ∀ n ∈ trailing extent, n < wordLimit) :
    build size extent offset order =
      .ok ⟨assemble size extent offset (trailing extent) order⟩ := by
  unfold build
  rw [(volume?_eq_some_iff size _).mpr ⟨hsize, rfl⟩,
    (volume?_eq_some_iff extent _).mpr ⟨hextent, rfl⟩,
    (strides?_eq_some_iff extent _).mpr ⟨hstride, rfl⟩]

/-- A build of which some product is no word is refused. -/
theorem build_refused {size extent offset order : List Nat}
    (h : ¬ (WordVolume size ∧ WordVolume extent ∧ ∀ n ∈ trailing extent, n < wordLimit)) :
    build size extent offset order = .error (.invalidArgument (.extentOverflow extent)) := by
  unfold build
  split
  · next hsize hextent hstride =>
    exact absurd ⟨((volume?_eq_some_iff _ _).mp hsize).1, ((volume?_eq_some_iff _ _).mp hextent).1,
      ((strides?_eq_some_iff _ _).mp hstride).1⟩ h
  · rfl

/-- What one axis asks of the marks, and what it leaves to the axes after it. -/
theorem markable_cons (marks : List Bool) (a : Nat) (order : List Nat) :
    markable marks (a :: order) = true ↔
      marks[a]? = some false ∧ markable (marks.set a true) order = true := by
  rw [markable]
  split
  · next h => exact (and_iff_right h).symm
  · next h => exact iff_of_false nofun fun hm => h hm.1

theorem getElem?_mark (marks : List Bool) (a b : Nat) :
    (marks.set a true)[b]? = some false ↔ b ≠ a ∧ marks[b]? = some false := by
  rw [List.getElem?_set]
  by_cases hab : a = b
  · by_cases hlt : a < marks.length <;> simp [hab]
  · simp [hab, Ne.symm hab]

/-- Axes can be marked when none of them is marked before and none is there twice. -/
theorem markable_iff (marks : List Bool) (order : List Nat) :
    markable marks order = true ↔ (∀ a ∈ order, marks[a]? = some false) ∧ order.Nodup := by
  induction order generalizing marks with
  | nil => simp [markable]
  | cons a order ih =>
    simp only [markable_cons, ih, getElem?_mark, List.forall_mem_cons, List.nodup_cons]
    constructor
    · rintro ⟨ha, hrest, hnodup⟩
      exact ⟨⟨ha, fun b hb => (hrest b hb).2⟩, fun hmem => (hrest a hmem).1 rfl, hnodup⟩
    · rintro ⟨⟨ha, hrest⟩, hmem, hnodup⟩
      exact ⟨ha, fun b hb => ⟨ne_of_mem_of_not_mem hb hmem, hrest b hb⟩, hnodup⟩

/-- As many marks as axes are enough exactly if the axes are a permutation. -/
theorem isPermutation_iff {order : List Nat} :
    isPermutation order = true ↔ order.Perm (List.range order.length) := by
  have hmarks : ∀ a, (List.replicate order.length false)[a]? = some false ↔
      a ∈ List.range order.length := by simp [List.getElem?_replicate]
  simp only [isPermutation, markable_iff, hmarks]
  constructor
  · rintro ⟨hrange, hnodup⟩
    exact (List.subperm_of_subset hnodup hrange).perm_of_length_le (by simp)
  · intro h
    exact ⟨fun a ha => h.mem_iff.mp ha, h.nodup_iff.mpr List.nodup_range⟩

theorem checkOrder_eq_ok_iff {order : List Nat} :
    checkOrder order = .ok () ↔ order.Perm (List.range order.length) := by
  rw [← isPermutation_iff, checkOrder]
  split <;> simp [*]

/-- Every dimension has room for its active positions. -/
def Room (size extent offset : List Nat) : Prop :=
  ∀ d n e o : Nat, size[d]? = some n → extent[d]? = some e → offset[d]? = some o → o + n ≤ e

theorem room_iff (l : Layout) :
    Room l.size l.extent l.offset ↔ ∀ d ∈ l.dims, d.offset + d.size ≤ d.extent := by
  simp only [Room, size, extent, offset, List.getElem?_map, List.mem_iff_getElem?]
  constructor
  · rintro hroom d ⟨i, hd⟩
    apply hroom i <;> rw [hd, Option.map_some]
  · rintro hfits i n e o hn he ho
    obtain ⟨d, hd, rfl⟩ := Option.map_eq_some_iff.mp hn
    rw [hd] at he ho
    obtain rfl := Option.some.inj he
    obtain rfl := Option.some.inj ho
    exact hfits d ⟨i, hd⟩

theorem room_unpadded (ns : List Nat) : Room ns ns (ns.map fun _ => 0) := by
  intro d n e o hn he ho
  obtain rfl := Option.some.inj (hn.symm.trans he)
  rw [List.getElem?_map, hn] at ho
  obtain rfl := Option.some.inj ho
  exact Nat.le_of_eq (Nat.zero_add n)

/-- The check passes when in every dimension the active positions end within the extent, and at a word. -/
theorem checkFit_eq_ok_iff {k : Nat} {size extent offset : List Nat} :
    checkFit k size extent offset = .ok () ↔ ∀ d n e o : Nat, size[d]? = some n →
      extent[d]? = some e → offset[d]? = some o → o + n < wordLimit ∧ o + n ≤ e := by
  fun_induction checkFit k size extent offset with
  | case1 k n size e extent o offset h ih =>
    rw [ih]
    constructor
    · intro hrest d
      cases d with
      | zero =>
        rintro _ _ _ ⟨⟩ ⟨⟩ ⟨⟩
        exact (checkedAdd_any_le o n e).mp h
      | succ d => exact hrest d
    · exact fun hall d => hall (d + 1)
  | case2 k n size e extent o offset h =>
    refine iff_of_false nofun fun hall => ?_
    exact h ((checkedAdd_any_le o n e).mpr (hall 0 n e o rfl rfl rfl))
  | case3 size k extent offset hempty =>
    -- a dimension that is in all three lists would leave none of them empty
    refine iff_of_true rfl fun d n e o hn he ho => ?_
    rcases size with _ | ⟨n', size⟩
    · cases hn
    rcases extent with _ | ⟨e', extent⟩
    · cases he
    rcases offset with _ | ⟨o', offset⟩
    · cases ho
    exact (hempty n' size e' extent o' offset rfl rfl rfl).elim

theorem room_of_checkFit {k : Nat} {size extent offset : List Nat}
    (h : checkFit k size extent offset = .ok ()) : Room size extent offset :=
  fun d n e o hn he ho => (checkFit_eq_ok_iff.mp h d n e o hn he ho).2

theorem length_parts (l : Layout) : l.size.length = l.rank ∧ l.extent.length = l.rank ∧
    l.offset.length = l.rank ∧ l.stride.length = l.rank ∧ l.order.length = l.rank := by
  simp [size, extent, offset, stride, order, rank]

theorem Built.wellFormed {size extent offset order : List Nat} {l : Layout}
    (b : Built size extent offset order l) (ha : order.Perm (List.range order.length))
    (hroom : Room size extent offset) : l.WellFormed where
  axes := by
    rw [b.order_eq, ← l.length_parts.2.2.2.2, b.order_eq]
    exact ha
  fits := by
    rw [← room_iff, b.size_eq, b.extent_eq, b.offset_eq]
    exact hroom
  strides := by rw [b.stride_eq, b.extent_eq]
  words := by
    rw [b.size_eq, b.extent_eq, b.stride_eq]
    exact b.words

theorem ofSizes_built {ns : List Nat} {l : Layout} (h : ofSizes ns = .ok l) :
    Built ns ns (ns.map fun _ => 0) (List.range ns.length) l :=
  build_eq_ok rfl (by simp) (by simp) h

theorem ofSizes_wellFormed {ns : List Nat} {l : Layout} (h : ofSizes ns = .ok l) :
    l.WellFormed :=
  (ofSizes_built h).wellFormed (by simp) (room_unpadded ns)

theorem ofParts_built {size extent offset order : List Nat} {l : Layout}
    (h : ofParts size extent offset order = .ok l) : Built size extent offset order l ∧
      checkOrder order = .ok () ∧ checkFit 0 size extent offset = .ok () := by
  unfold ofParts at h
  split at h
  · cases h
  case isFalse hranks =>
    simp only [not_or, not_not] at hranks
    obtain ⟨_, horder, h⟩ := bind_eq_ok_iff.mp h
    obtain ⟨_, hfit, h⟩ := bind_eq_ok_iff.mp h
    exact ⟨build_eq_ok hranks.1 hranks.2.1 hranks.2.2 h, horder, hfit⟩

theorem ofParts_wellFormed {size extent offset order : List Nat} {l : Layout}
    (h : ofParts size extent offset order = .ok l) : l.WellFormed := by
  obtain ⟨b, horder, hfit⟩ := ofParts_built h
  exact b.wellFormed (checkOrder_eq_ok_iff.mp horder) (room_of_checkFit hfit)

/-- A padded layout has the parts of its sizes and padding, with extents that are words. -/
theorem withPadding_eq_ok {size padding : List Nat} {l : Layout}
    (h : withPadding size padding = .ok l) : ∃ extent,
      ((size.zip padding).mapM fun (n, p) => padded? n p) = some extent ∧
        ofParts size extent padding (List.range size.length) = .ok l := by
  unfold withPadding at h
  by_cases hranks : size.length = padding.length
  · simp only [hranks, ne_eq, not_true_eq_false, if_false] at h
    split at h
    · next extent hextent => exact ⟨extent, hextent, hranks ▸ h⟩
    · cases h
  · simp [hranks] at h

theorem withPadding_wellFormed {size padding : List Nat} {l : Layout}
    (h : withPadding size padding = .ok l) : l.WellFormed := by
  obtain ⟨_, -, hparts⟩ := withPadding_eq_ok h
  exact ofParts_wellFormed hparts

/-- Giving the dimensions other axes changes no other part. -/
theorem zipWith_axis_parts {dims : List Dimension} {order : List Nat}
    (ha : order.length = dims.length) :
    let l : Layout := ⟨List.zipWith (fun d a => { d with axis := a }) dims order⟩
    l.size = dims.map (·.size) ∧ l.extent = dims.map (·.extent) ∧ l.stride = dims.map (·.stride) ∧
      l.order = order ∧ ∀ d ∈ l.dims, ∃ d' ∈ dims, d = { d' with axis := d.axis } := by
  induction dims generalizing order with
  | nil =>
    obtain rfl := List.length_eq_zero_iff.mp ha
    simp [size, extent, stride, Layout.order]
  | cons d dims ih =>
    obtain ⟨a, order, rfl⟩ := List.exists_cons_of_length_eq_add_one ha
    simp only [List.length_cons, Nat.add_right_cancel_iff] at ha
    obtain ⟨h1, h2, h3, h4, h5⟩ := ih ha
    refine ⟨congrArg (List.cons d.size) h1, congrArg (List.cons d.extent) h2,
      congrArg (List.cons d.stride) h3, congrArg (List.cons a) h4, fun x hx => ?_⟩
    rcases List.mem_cons.mp hx with rfl | hx
    · exact ⟨d, List.mem_cons_self, rfl⟩
    · obtain ⟨d', hd', heq⟩ := h5 x hx
      exact ⟨d', List.mem_cons_of_mem _ hd', heq⟩

theorem reorder_eq_ok {l l' : Layout} {order : List Nat} (h : l.reorder order = .ok l') :
    order.length = l.rank ∧ checkOrder order = .ok () ∧
      l' = ⟨List.zipWith (fun d a => { d with axis := a }) l.dims order⟩ := by
  unfold reorder at h
  split at h
  · cases h
  case isFalse hrank =>
    obtain ⟨_, horder, h⟩ := bind_eq_ok_iff.mp h
    exact ⟨not_not.mp hrank, horder, (Except.ok.inj h).symm⟩

theorem WellFormed.reorder {l l' : Layout} {order : List Nat} (hl : l.WellFormed)
    (h : l.reorder order = .ok l') : l'.WellFormed := by
  obtain ⟨hrank, horder, rfl⟩ := reorder_eq_ok h
  obtain ⟨hsize, hextent, hstride, ha, hdims⟩ := zipWith_axis_parts hrank
  refine ⟨?_, fun d hd => ?_, ?_, ?_⟩
  · rw [ha, rank, List.length_zipWith, hrank, rank, Nat.min_self, ← rank, ← hrank]
    exact checkOrder_eq_ok_iff.mp horder
  · obtain ⟨d', hd', heq⟩ := hdims d hd
    rw [heq]
    exact hl.fits d' hd'
  · rw [hstride, hextent]
    exact hl.strides
  · rw [hsize, hextent, hstride]
    exact hl.words

theorem scalar_wellFormed : scalar.WellFormed where
  axes := List.Perm.refl []
  fits d hd := by simp [scalar] at hd
  strides := rfl
  words := by
    refine ⟨fun i => ?_, fun i => ?_, ?_⟩ <;>
      simp [size, extent, stride, scalar, wordLimit]

theorem eq_scalar_of_isScalar {l : Layout} (h : l.isScalar = true) : l = scalar := by
  obtain ⟨dims⟩ := l
  obtain rfl : dims = [] := by simpa [isScalar] using h
  rfl

/-- Whatever recipe a layout comes from, it is well formed. -/
theorem Obtainable.wellFormed {l : Layout} (h : l.Obtainable) : l.WellFormed := by
  obtain ⟨r, hr⟩ := h
  induction r generalizing l with
  | scalar =>
    obtain rfl := Except.ok.inj hr
    exact scalar_wellFormed
  | sizes size => exact ofSizes_wellFormed hr
  | padded size padding => exact withPadding_wellFormed hr
  | parts size extent offset order => exact ofParts_wellFormed hr
  | reordered inner order ih =>
    obtain ⟨l', hinner, h⟩ := bind_eq_ok_iff.mp hr
    exact (ih hinner).reorder h

theorem obtainable_scalar : scalar.Obtainable := ⟨.scalar, rfl⟩

theorem obtainable_ofSizes {ns : List Nat} {l : Layout} (h : ofSizes ns = .ok l) :
    l.Obtainable := ⟨.sizes ns, h⟩

end Emission.Layout
