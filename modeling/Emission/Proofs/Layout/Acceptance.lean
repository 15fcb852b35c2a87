import Emission.Proofs.Layout.Representation

/-!
Which parts make a layout. There have to be as many of each kind, with the axes a permutation and with room in
every dimension, and the products made of sizes and extents have to be words: those taken from the left, and those
of the extents to the right of a dimension. An extent of zero hides what is multiplied after it, so neither kind
of product bounds the other. All this is enough, and then the layout is the well-formed one with these parts.
Padded sizes have room by themselves, so only their extents and the products decide. Everything else is refused as
an invalid argument.
-/
namespace Emission

namespace Layout

/-- The products that are made of sizes and extents are words. -/
structure WordProducts (size extent : List Nat) : Prop where
  sizes : ∀ i, (size.take i).prod < wordLimit
  extents : ∀ i, (extent.take i).prod < wordLimit
  strides : ∀ d, 1 ≤ d → (extent.drop d).prod < wordLimit

/-- Parts, each in physical order, that make a layout. -/
structure Acceptable (size extent offset order : List Nat) : Prop where
  ranks : extent.length = size.length ∧ offset.length = size.length ∧ order.length = size.length
  axes : order.Perm (List.range size.length)
  room : Room size extent offset
  products : WordProducts size extent

theorem trailing_lt_iff {ns : List Nat} :
    (∀ n ∈ trailing ns, n < wordLimit) ↔ ∀ d, 1 ≤ d → (ns.drop d).prod < wordLimit := by
  simp only [List.mem_iff_getElem?, getElem?_trailing]
  constructor
  · intro h d hd
    obtain ⟨d, rfl⟩ := Nat.exists_eq_add_of_le' hd
    by_cases hlt : d < ns.length
    · exact h _ ⟨d, if_pos hlt⟩
    · -- nothing is left of the numbers
      rw [List.drop_eq_nil_of_le (by omega), List.prod_nil]
      exact one_lt_wordLimit
  · rintro h n ⟨d, hd⟩
    split at hd
    · obtain rfl := Option.some.inj hd
      exact h (d + 1) (Nat.le_add_left 1 d)
    · cases hd

theorem wordProducts_iff {size extent : List Nat} : WordProducts size extent ↔
    WordVolume size ∧ WordVolume extent ∧ ∀ n ∈ trailing extent, n < wordLimit := by
  rw [trailing_lt_iff]
  constructor
  · rintro ⟨hsizes, hextents, hstrides⟩
    exact ⟨hsizes, hextents, hstrides⟩
  · rintro ⟨hsizes, hextents, hstrides⟩
    exact ⟨hsizes, hextents, hstrides⟩

theorem assemble_self (l : Layout) :
    assemble l.size l.extent l.offset l.stride l.order = l.dims := by
  obtain ⟨dims⟩ := l
  simp only [size, extent, offset, stride, order]
  induction dims with
  | nil => rfl
  | cons d dims ih => simp only [List.map_cons, assemble, ih]

section Parts

variable {size extent offset order : List Nat}

/-- The parts are acceptable exactly if a well-formed layout has them. -/
theorem acceptable_iff : Acceptable size extent offset order ↔ ∃ l : Layout, l.WellFormed ∧
    l.size = size ∧ l.extent = extent ∧ l.offset = offset ∧ l.order = order := by
  constructor
  · rintro ⟨⟨he, ho, ha⟩, haxes, hroom, hproducts⟩
    obtain ⟨hsizes, hextents, hstrides⟩ := wordProducts_iff.mp hproducts
    have b := build_eq_ok he ho ha (build_ok hsizes hextents hstrides)
    exact ⟨_, b.wellFormed (ha ▸ haxes) hroom, b.size_eq, b.extent_eq, b.offset_eq, b.order_eq⟩
  · rintro ⟨l, hl, rfl, rfl, rfl, rfl⟩
    obtain ⟨hsize, hextent, hoffset, -, horder⟩ := l.length_parts
    refine ⟨?_, ?_, (room_iff l).mpr hl.fits, wordProducts_iff.mpr (hl.strides ▸ hl.words)⟩
    · rw [hsize, hextent, hoffset, horder]
      exact ⟨rfl, rfl, rfl⟩
    · rw [hsize]
      exact hl.axes

/-- A well-formed layout whose extents are words is made of its own parts. -/
theorem WellFormed.ofParts_eq {l : Layout} (hl : l.WellFormed) (hw : ∀ n ∈ l.extent, n < wordLimit) :
    ofParts l.size l.extent l.offset l.order = .ok l := by
  obtain ⟨hsize, hextent, hoffset, -, horder⟩ := l.length_parts
  obtain ⟨hsizes, hextents, hstrides⟩ := hl.words
  have hranks : ¬ (l.extent.length ≠ l.size.length ∨ l.offset.length ≠ l.size.length ∨
      l.order.length ≠ l.size.length) := by
    rw [hsize, hextent, hoffset, horder]
    simp
  have haxes : checkOrder l.order = .ok () := checkOrder_eq_ok_iff.mpr (horder ▸ hl.axes)
  have hfit : checkFit 0 l.size l.extent l.offset = .ok () := by
    refine checkFit_eq_ok_iff.mpr fun d n e o hn he ho => ?_
    have hroom : o + n ≤ e := (room_iff l).mpr hl.fits d n e o hn he ho
    exact ⟨Nat.lt_of_le_of_lt hroom (hw e (List.mem_of_getElem? he)), hroom⟩
  rw [ofParts, if_neg hranks, haxes, ok_bind, hfit, ok_bind,
    build_ok hsizes hextents (hl.strides ▸ hstrides), ← hl.strides, assemble_self]

theorem ofParts_eq_ok_iff (hw : ∀ n ∈ extent, n < wordLimit) {l : Layout} :
    ofParts size extent offset order = .ok l ↔ l.WellFormed ∧
      l.size = size ∧ l.extent = extent ∧ l.offset = offset ∧ l.order = order := by
  constructor
  · intro h
    have b := (ofParts_built h).1
    exact ⟨ofParts_wellFormed h, b.size_eq, b.extent_eq, b.offset_eq, b.order_eq⟩
  · rintro ⟨hl, rfl, rfl, rfl, rfl⟩
    exact hl.ofParts_eq hw

theorem exists_ofParts_iff (hw : ∀ n ∈ extent, n < wordLimit) :
    (∃ l, ofParts size extent offset order = .ok l) ↔ Acceptable size extent offset order := by
  simp only [ofParts_eq_ok_iff hw, acceptable_iff]

end Parts

section Refusal

/-- The request fails only because an argument is invalid. -/
abbrev FailsByArgument {α : Type} (x : Except Failure α) : Prop :=
  FailsBy (fun e => ∃ fault, e = .invalidArgument fault) x

theorem failsBy_checkOrder (order : List Nat) : FailsByArgument (checkOrder order) := by
  unfold checkOrder
  split
  · exact .ok ()
  · exact .error ⟨_, rfl⟩

theorem failsBy_checkFit (k : Nat) (size extent offset : List Nat) :
    FailsByArgument (checkFit k size extent offset) := by
  fun_induction checkFit k size extent offset with
  | case1 k n size e extent o offset h ih => exact ih
  | case2 k n size e extent o offset h => exact .error ⟨_, rfl⟩
  | case3 => exact .ok ()

theorem failsBy_build (size extent offset order : List Nat) :
    FailsByArgument (build size extent offset order) := by
  unfold build
  split
  · exact .ok _
  · exact .error ⟨_, rfl⟩

theorem failsBy_ofParts (size extent offset order : List Nat) :
    FailsByArgument (ofParts size extent offset order) :=
  .guard (fun _ => ⟨_, rfl⟩) fun _ => .bind (failsBy_checkOrder order) fun _ _ =>
    .bind (failsBy_checkFit 0 size extent offset) fun _ _ => failsBy_build size extent offset order

theorem failsBy_withPadding (size padding : List Nat) :
    FailsByArgument (withPadding size padding) := by
  refine .guard (fun _ => ⟨_, rfl⟩) fun _ => ?_
  split
  · exact failsBy_ofParts _ _ _ _
  · exact .error ⟨_, rfl⟩

theorem FailsByArgument.refused {α : Type} {x : Except Failure α} (hx : FailsByArgument x)
    (h : ¬ ∃ a, x = .ok a) : ∃ fault, x = .error (.invalidArgument fault) := by
  obtain ⟨_, hx, fault, rfl⟩ := hx.exists_error h
  exact ⟨fault, hx⟩

end Refusal

section Padded

variable {size padding : List Nat}

theorem withPadding_eq_ofParts (hranks : size.length = padding.length)
    (hw : ∀ n ∈ paddedExtent size padding, n < wordLimit) : withPadding size padding =
      ofParts size (paddedExtent size padding) padding (List.range size.length) := by
  have hextent := (mapM_padded_eq_some_iff size padding _).mpr ⟨hw, rfl⟩
  simp only [withPadding, hranks, ne_eq, not_true_eq_false, if_false, hextent]

/-- The active positions lie between the paddings. -/
theorem room_padded (size padding : List Nat) : Room size (paddedExtent size padding) padding := by
  intro d n e p hn he hp
  rw [paddedExtent, List.getElem?_zipWith, hn, hp] at he
  obtain rfl := Option.some.inj he
  omega

theorem acceptable_padded (hranks : size.length = padding.length)
    (hproducts : WordProducts size (paddedExtent size padding)) :
    Acceptable size (paddedExtent size padding) padding (List.range size.length) where
  ranks := by simp [paddedExtent, hranks]
  axes := List.Perm.refl _
  room := room_padded size padding
  products := hproducts

theorem exists_withPadding_iff : (∃ l, withPadding size padding = .ok l) ↔
    size.length = padding.length ∧ (∀ n ∈ paddedExtent size padding, n < wordLimit) ∧
      WordProducts size (paddedExtent size padding) := by
  constructor
  · rintro ⟨l, hl⟩
    obtain ⟨_, hextent, hparts⟩ := withPadding_eq_ok hl
    obtain ⟨hw, rfl⟩ := (mapM_padded_eq_some_iff _ _ _).mp hextent
    have h := (exists_ofParts_iff hw).mp ⟨l, hparts⟩
    exact ⟨h.ranks.2.1.symm, hw, h.products⟩
  · rintro ⟨hranks, hw, hproducts⟩
    rw [withPadding_eq_ofParts hranks hw]
    exact (exists_ofParts_iff hw).mpr (acceptable_padded hranks hproducts)

end Padded

/-- Parts given in words are accepted exactly if there are as many of each, the axes are a permutation, every
dimension has room, and the products of sizes and extents are words. The layout is then the well-formed one with
these parts, and otherwise an argument is invalid. Padded sizes are accepted exactly if each has its padding, the
extents are words, and so are the products of sizes and extents. -/
theorem parts_accepted_iff :
    (∀ size extent offset order : List Nat, (∀ n ∈ extent, n < wordLimit) →
      ((∃ l, ofParts size extent offset order = .ok l) ↔ Acceptable size extent offset order) ∧
      (∀ l, ofParts size extent offset order = .ok l ↔ l.WellFormed ∧
        l.size = size ∧ l.extent = extent ∧ l.offset = offset ∧ l.order = order) ∧
      (¬ Acceptable size extent offset order →
        ∃ fault, ofParts size extent offset order = .error (.invalidArgument fault))) ∧
    ∀ size padding : List Nat,
      let extent := paddedExtent size padding
      let accepted := size.length = padding.length ∧ (∀ n ∈ extent, n < wordLimit) ∧
        WordProducts size extent
      ((∃ l, withPadding size padding = .ok l) ↔ accepted) ∧
      (accepted → withPadding size padding =
        ofParts size extent padding (List.range size.length)) ∧
      (¬ accepted → ∃ fault, withPadding size padding = .error (.invalidArgument fault)) := by
  refine ⟨fun size extent offset order hw => ?_, fun size padding => ?_⟩
  · refine ⟨exists_ofParts_iff hw, fun _ => ofParts_eq_ok_iff hw, fun h => ?_⟩
    exact (failsBy_ofParts _ _ _ _).refused fun hl => h ((exists_ofParts_iff hw).mp hl)
  · refine ⟨exists_withPadding_iff, fun h => withPadding_eq_ofParts h.1 h.2.1, fun h => ?_⟩
    exact (failsBy_withPadding _ _).refused fun hl => h (exists_withPadding_iff.mp hl)

/-- A zero hides a product that is no word from the left if it stands in front of it, and from the right if it
stands behind it. In the middle it hides the product from both sides. The largest word takes no padding. -/
theorem parts_accepted_iff_zero :
    let n : Nat := 1099511627776
    let l : Layout := ⟨[⟨3, n, 1, 0, 2⟩, ⟨0, 0, 0, n, 0⟩, ⟨5, n, 7, 1, 1⟩]⟩
    (∀ m ∈ [n, 0, n], m < wordLimit) ∧ (∀ m ∈ [0, n, n], m < wordLimit) ∧
      (∀ m ∈ [n, n, 0], m < wordLimit) ∧
      ofParts [3, 0, 5] [n, 0, n] [1, 0, 7] [2, 0, 1] = .ok l ∧ l.WellFormed ∧
      Acceptable [3, 0, 5] [n, 0, n] [1, 0, 7] [2, 0, 1] ∧
      (∃ fault, ofParts [0, 3, 5] [0, n, n] [0, 1, 7] [2, 0, 1] = .error (.invalidArgument fault)) ∧
      (∃ fault, ofParts [3, 5, 0] [n, n, 0] [1, 7, 0] [2, 0, 1] = .error (.invalidArgument fault)) ∧
      withPadding [wordLimit - 1] [0] = ofParts [wordLimit - 1] [wordLimit - 1] [0] [0] ∧
      ∃ fault, withPadding [wordLimit - 1] [1] = .error (.invalidArgument fault) := by
  intro n l
  obtain ⟨hparts, hpadded⟩ := parts_accepted_iff
  have hmiddle : ∀ m ∈ [n, 0, n], m < wordLimit := by decide
  have hfront : ∀ m ∈ [0, n, n], m < wordLimit := by decide
  have hback : ∀ m ∈ [n, n, 0], m < wordLimit := by decide
  have hl : ofParts [3, 0, 5] [n, 0, n] [1, 0, 7] [2, 0, 1] = .ok l := by decide +kernel
  have hwidest : withPadding [wordLimit - 1] [0] =
      .ok ⟨[⟨wordLimit - 1, wordLimit - 1, 0, 1, 0⟩]⟩ := by decide +kernel
  obtain ⟨haccepted, hlayout, -⟩ := hparts [3, 0, 5] _ [1, 0, 7] [2, 0, 1] hmiddle
  obtain ⟨hunpadded, hsame, -⟩ := hpadded [wordLimit - 1] [0]
  refine ⟨hmiddle, hfront, hback, hl, ((hlayout l).mp hl).1, haccepted.mp ⟨l, hl⟩, ?_, ?_,
    hsame (hunpadded.mp ⟨_, hwidest⟩), ?_⟩
  · refine (hparts _ _ _ _ hfront).2.2 fun h => ?_
    exact absurd (h.products.strides 1 (Nat.le_refl 1)) (by decide)
  · refine (hparts _ _ _ _ hback).2.2 fun h => ?_
    exact absurd (h.products.extents 2) (by decide)
  · refine (hpadded _ _).2.2 fun h => ?_
    exact absurd (h.2.1 (wordLimit - 1 + 2 * 1) List.mem_cons_self) (by decide)

end Layout

end Emission
