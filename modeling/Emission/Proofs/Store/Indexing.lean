import Emission.Proofs.Store.Elementwise
import Emission.Store.Addressing
import Emission.Store.View
import Mathlib.Algebra.Ring.Int.Defs

/-!
Addressing by stored coordinates. What is computed from scalars that hold coordinates is the bit
pattern of their address in the type of the scalars. It is the address only while that is below the
bound of the type. The numbers of a layout that are applied on the way have to fit, and each stored
operation takes a handle; nothing else can fail before the offset is used.
-/
namespace Emission

variable {Body : Type}

/-- The numbers of a dimension that are applied to a coordinate fit in the type. -/
def IntKind.Fits (k : IntKind) (d : Dimension) : Prop :=
  (d.offset = 0 ∨ d.offset < k.bound) ∧ (d.stride = 1 ∨ d.stride < k.bound)

instance (k : IntKind) (d : Dimension) : Decidable (k.Fits d) :=
  inferInstanceAs (Decidable (_ ∧ _))

/-- What the dimension adds to the offset of any numbers in the place of coordinates. -/
def Dimension.shift (d : Dimension) (ns : List Int) : Int := d.stride * (ns[d.axis]?.getD 0 + d.offset)

/-- The sum over the dimensions of stride times place, for any numbers in the place of coordinates. -/
def Layout.displacement (l : Layout) (ns : List Int) : Int := (l.dims.map (·.shift ns)).sum

/-- Coordinates are displaced to their address. -/
theorem Layout.displacement_natCast (l : Layout) (coordinates : List Nat) :
    l.displacement (coordinates.map (↑)) = l.address coordinates := by
  unfold displacement address
  induction l.dims with
  | nil => rfl
  | cons d dims ih =>
    have hshift : d.shift (coordinates.map (↑)) = (d.place coordinates * d.stride : Nat) := by
      simp only [Dimension.shift, Dimension.place, List.getElem?_map]
      cases coordinates[d.axis]? with
      | none => simp [Int.mul_comm]
      | some n => simp [Int.mul_comm]
    simp only [List.map_cons, List.sum_cons, ih, hshift, Int.natCast_add]

/-- What has to hold for a view at an address computed in the type. The address counts up to a
multiple of the number of bit patterns. -/
structure IntKind.Reaches (k : IntKind) (l : Layout) (start length address : Nat) : Prop where
  fits : ∀ d ∈ l.dims, k.Fits d
  bound : address % 2 ^ k.width < k.bound
  inside : start + address % 2 ^ k.width < length

namespace Store

/-- The scalar is backed, and its element is the integer of these bits. -/
def Holds (s : Store Body) (k : IntKind) (a : Scalar) (x : BitVec k.width) : Prop :=
  ∃ slot data, s.Backing a.value .scalar slot data ∧ data.get slot.start = .integer k x

/-- The scalars hold the coordinates as integers of one kind. -/
def Indexes (s : Store Body) (k : IntKind) (coordinates : List Scalar) (c : List Nat) : Prop :=
  List.Forall₂ (fun a (n : Nat) => ∃ x, s.Holds k a x ∧ k.toInt x = n) coordinates c

/-- The scalars hold numbers, counted up to a multiple of the number of bit patterns. -/
def Counts (s : Store Body) (k : IntKind) (coordinates : List Scalar) (ns : List Int) : Prop :=
  List.Forall₂ (fun a n => s.Holds k a (BitVec.ofInt k.width n)) coordinates ns

/-- A running total of terms; nothing has been added before the first. -/
def HoldsTotal (s : Store Body) (k : IntKind) (total? : Option Scalar) (x : BitVec k.width) : Prop :=
  match total? with
  | some a => s.Holds k a x
  | none => x = 0#k.width

/-- Either there is no handle left, or something else stands in the way. -/
def Blocked (obstacle : Prop) (s : Store Body) : Prop :=
  handleLimit ≤ s.slots.size ∨ obstacle

variable {s s' : Store Body} {k : IntKind} {a b : Scalar} {x y z : BitVec k.width}

theorem Holds.mono (h : s.Holds k a x) (hs : s.Grows s') : s'.Holds k a x := by
  obtain ⟨slot, data, hbacking, hx⟩ := h
  exact ⟨slot, data, hbacking.mono hs, hx⟩

theorem Counts.mono {coordinates : List Scalar} {ns : List Int} (h : s.Counts k coordinates ns)
    (hs : s.Grows s') : s'.Counts k coordinates ns :=
  h.imp fun _ _ hx => hx.mono hs

/-- Coordinates in particular are numbers. -/
theorem Indexes.counts {coordinates : List Scalar} {c : List Nat} (h : s.Indexes k coordinates c) :
    s.Counts k coordinates (c.map (↑)) := by
  unfold Counts
  rw [List.forall₂_map_right_iff]
  refine h.imp fun _ _ ⟨x, hx, hn⟩ => ?_
  rwa [← hn, k.ofInt_toInt]

theorem HoldsTotal.mono {total? : Option Scalar} (h : s.HoldsTotal k total? x)
    (hs : s.Grows s') : s'.HoldsTotal k total? x := by
  cases total? with
  | none => exact h
  | some a => exact Holds.mono h hs

theorem Holds.base_eq (h : s.Holds k a x) : a.value.base = .cell (.integer k) := by
  obtain ⟨slot, data, hbacking, hx⟩ := h
  rw [hbacking.base, ← Data.kind_get data slot.start, hx]
  rfl

theorem Holds.element_eq (h : s.Holds k a x) : s.element a = .ok (.integer k x) := by
  obtain ⟨slot, data, hbacking, hx⟩ := h
  rw [element, hbacking.fetch_eq (c := []) List.Forall₂.nil]
  exact congrArg Except.ok hx

/-- Beside a single element it is repeated, also once there are new buffers. -/
theorem Holds.broadcast_eq (h : s.Holds k a x) (hs : s.Grows s') {c : List Nat}
    (hc : c ∈ Layout.scalar.coordinates) : s'.broadcast a.value c = .ok (.integer k x) := by
  obtain ⟨slot, data, hbacking, hx⟩ := h
  obtain rfl : c = [] := List.mem_singleton.mp hc
  exact ((hbacking.mono hs).broadcast_eq List.Forall₂.nil).trans (congrArg Except.ok hx)

/-- The scalar of an axis holds the number along it. -/
theorem Counts.getElem? {coordinates : List Scalar} {ns : List Int} {i : Nat}
    (h : s.Counts k coordinates ns) (hi : i < ns.length) :
    ∃ a, coordinates[i]? = some a ∧ s.Holds k a (BitVec.ofInt k.width (ns[i]?.getD 0)) := by
  induction h generalizing i with
  | nil => simp at hi
  | cons hd _ ih =>
    cases i with
    | zero => exact ⟨_, rfl, hd⟩
    | succ i => exact ih (by simpa using hi)

/-- An integer alone in a buffer. -/
def single (k : IntKind) (x : BitVec k.width) : Data :=
  .ofList (.integer k) [.integer k x]

theorem get_single (k : IntKind) (x : BitVec k.width) : (single k x).get 0 = .integer k x := by
  rw [single, Data.get_ofList Nat.zero_lt_one]
  exact congrArg _ (k.narrow_widen _)

/-- The integer at a handle. -/
def scalarAt (k : IntKind) (i : Nat) : Scalar :=
  ⟨⟨.plain (.cell (.integer k)), some .scalar, some ⟨i⟩⟩, rfl⟩

theorem Holds.read_eq (h : s.Holds k a x) : s.read a.value = .ok (single k x) := by
  obtain ⟨slot, data, hbacking, hx⟩ := h
  have hkind : data.kind = .integer k := by
    rw [← Data.kind_get data slot.start, hx]
    rfl
  rw [hbacking.read_eq, single, ← hx, ← hkind]
  rfl

theorem Holds.backed (h : s.Holds k a x) : s.Backed a.value := by
  obtain ⟨slot, data, hbacking, -⟩ := h
  exact hbacking.toBacked

/-- A scalar with storage of an integral type holds an integer. -/
theorem Backed.holds (h : s.Backed a.value) (hbase : a.base = .cell (.integer k)) :
    ∃ x, s.Holds k a x := by
  obtain ⟨l, slot, data, b⟩ := h
  have hrank : l.rank = 0 := by
    have hvalue := a.rank_eq
    rw [Value.rank?, b.layout] at hvalue
    exact Option.some.inj hvalue
  obtain rfl : l = .scalar := congrArg Layout.mk (List.length_eq_zero_iff.mp hrank)
  have hkind : data.kind = .integer k := BaseType.cell.inj (b.base.symm.trans hbase)
  obtain ⟨x, hx⟩ := Datum.exists_integer ((Data.kind_get data slot.start).trans hkind)
  exact ⟨x, slot, data, b, hx⟩

theorem holds_single {s : Store Body} {k : IntKind} {i b : Nat} {x : BitVec k.width}
    (hslot : s.slots[i]? = some ⟨b, 0⟩) (hbuffer : s.buffers[b]? = some (single k x)) :
    s.Holds k (scalarAt k i) x := by
  refine ⟨⟨b, 0⟩, single k x, {
    layout := rfl
    obtainable := Layout.obtainable_scalar
    handle := ⟨⟨i⟩, rfl, hslot⟩
    cells := hbuffer
    base := rfl
    room := Nat.le_refl 1
    fits := one_lt_cellLimit }, get_single k x⟩

theorem holds_fresh (s : Store Body) (k : IntKind) (x : BitVec k.width) :
    (s.withBuffer (single k x)).Holds k ⟨s.fresh (.integer k) .scalar, rfl⟩ x :=
  holds_single Array.getElem?_push_size Array.getElem?_push_size

end Store

namespace Action

open Store

variable {s : Store Body} {k : IntKind} {a b : Scalar} {x y z : BitVec k.width}
  {p : Prop}

theorem scalarArithmetic_meets {op : Arithmetic} (ha : s.Holds k a x) (hb : s.Holds k b y)
    (hop : Datum.arithmetic op (.integer k x) (.integer k y) = .ok (.integer k z)) :
    Meets Grows s (scalarArithmetic op a b) (fun c s' => s'.Holds k c z) (Blocked p) := by
  have hbase := ha.base_eq.trans hb.base_eq.symm
  have hnumeric : (a.value.base.isIntegral || a.value.base.isFloatingPoint) = true := by
    rw [ha.base_eq]
    rfl
  obtain ⟨slot, data, hA, hx⟩ := id ha
  obtain ⟨slot', data', hB, -⟩ := id hb
  have hkind : data.kind = .integer k := by
    rw [← Data.kind_get data slot.start, hx]
    rfl
  have hexec := arithmetic_exec op hA hB hbase (Or.inl rfl) hnumeric
  rw [hkind] at hexec
  by_cases hroom : s.slots.size < handleLimit
  · have hyields := (yields_tabulate Layout.scalar_wellFormed (by decide) (by decide) hroom
      (fun _ => .integer k z) fun s' hs' c hc => ?_).congr hexec
    · obtain ⟨l, hl, hexec, -⟩ := hyields
      obtain rfl : Layout.scalar = l := Except.ok.inj hl
      refine .of_ok (a := ⟨s.fresh (.integer k) .scalar, rfl⟩) ?_ (s.grows_withBuffer _)
        (s.holds_fresh k z)
      unfold scalarArithmetic
      rw [exec_bind, hexec]
      exact exec_lift _ _
    · rw [ha.broadcast_eq hs' hc, hb.broadcast_eq hs' hc]
      exact hop
  · obtain ⟨data, hexec⟩ :=
      (tabulate_exhausted Layout.scalar_wellFormed (by decide) (by decide) hroom _).congr hexec
    refine .of_error (e := .backend .handlesExhausted) ?_ (s.grows_pushBuffer data)
      (Or.inl (Nat.le_of_not_lt hroom))
    unfold scalarArithmetic
    rw [exec_bind, hexec]

theorem indexConstant_meets (s : Store Body) (k : IntKind) (n : Nat)
    (hp : k.bound ≤ n → p) :
    Meets Grows s (indexConstant k n)
      (fun a s' => n < k.bound ∧ s'.Holds k a (BitVec.ofNat k.width n)) (Blocked p) := by
  unfold indexConstant
  by_cases hn : n < k.bound
  · rw [if_pos hn]
    have hlayout : Layout.ofSizes
        [(Constant.single (.integer k) (.integer k (BitVec.ofNat k.width n))).data.size] =
          .ok ⟨[⟨1, 1, 0, 1, 0⟩]⟩ := rfl
    by_cases hroom : s.slots.size < handleLimit
    · refine .of_ok (a := ⟨s.fresh (.integer k) .scalar, rfl⟩) ?_ (s.grows_withBuffer _)
        ⟨hn, s.holds_fresh k _⟩
      unfold storeConstant
      simp only [exec_bind, exec_lift, hlayout, exec_newBuffer, hroom, if_true]
      rfl
    · refine .of_error (e := .backend .handlesExhausted) ?_
        (s.grows_pushBuffer (single k (BitVec.ofNat k.width n)))
        (Or.inl (Nat.le_of_not_lt hroom))
      unfold storeConstant
      simp only [exec_bind, exec_lift, hlayout, exec_newBuffer, hroom, if_false]
      rfl
  · rw [if_neg hn]
    exact .of_error (exec_throw s _) (.refl s) (Or.inr (hp (Nat.le_of_not_lt hn)))

/-- A number is applied as its bit pattern. Where it changes nothing it need not fit. -/
theorem applyNumber_meets {op : Arithmetic} {f : BitVec k.width → BitVec k.width → BitVec k.width}
    (hop : ∀ x y, Datum.arithmetic op (.integer k x) (.integer k y) = .ok (.integer k (f x y)))
    {u : Nat} (hunit : ∀ x, f x (BitVec.ofNat k.width u) = x) (n : Nat)
    (hp : ¬ (n = u ∨ n < k.bound) → p) (ha : s.Holds k a x) :
    Meets Grows s (applyNumber k op u n a)
      (fun c s' => (n = u ∨ n < k.bound) ∧ s'.Holds k c (f x (BitVec.ofNat k.width n)))
      (Blocked p) := by
  unfold applyNumber
  by_cases hn : n = u
  · subst hn
    rw [if_pos rfl]
    exact .pure ⟨Or.inl rfl, by rw [hunit]; exact ha⟩
  · rw [if_neg hn]
    have hconstant := indexConstant_meets s k n (p := p) fun hle =>
      hp (by rintro (h | h) <;> omega)
    refine hconstant.bind fun b s' hs' ⟨hlt, hb⟩ => ?_
    exact (scalarArithmetic_meets (ha.mono hs') hb (hop _ _)).imp
      (fun _ _ _ hc => ⟨Or.inr hlt, hc⟩) fun _ h => h

theorem indexTerm_meets (d : Dimension) (hp : ¬ k.Fits d → p)
    (ha : s.Holds k a x) :
    Meets Grows s (indexTerm k d a)
      (fun c s' => k.Fits d ∧
        s'.Holds k c ((x + BitVec.ofNat k.width d.offset) * BitVec.ofNat k.width d.stride))
      (Blocked p) := by
  unfold indexTerm
  have hadd := applyNumber_meets (f := (· + ·)) (Datum.arithmetic_add k) (u := 0)
    (fun x => BitVec.add_zero x) d.offset (p := p)
    (fun h => hp fun hfits => h hfits.1) ha
  refine hadd.bind fun b s' hs' ⟨hoffset, hb⟩ => ?_
  have hmultiply := applyNumber_meets (f := (· * ·)) (Datum.arithmetic_multiply k) (u := 1)
    (fun x => BitVec.mul_one x) d.stride (p := p)
    (fun h => hp fun hfits => h hfits.2) hb
  exact hmultiply.imp (fun _ _ _ ⟨hstride, hc⟩ => ⟨⟨hoffset, hstride⟩, hc⟩) fun _ h => h

theorem addTerm_meets {total? : Option Scalar} (htotal : s.HoldsTotal k total? x)
    (ha : s.Holds k a y) :
    Meets Grows s (addTerm total? a) (fun c s' => s'.Holds k c (x + y)) (Blocked p) := by
  unfold addTerm
  cases total? with
  | none =>
    obtain rfl : x = 0#k.width := htotal
    exact .pure (by rw [BitVec.zero_add]; exact ha)
  | some b => exact scalarArithmetic_meets htotal ha (Datum.arithmetic_add k x y)

/-- An offset is computed in the type of the first coordinate. -/
theorem indexKind_eq_ok_iff {others : List Scalar} :
    indexKind (a :: others) = .ok k ↔ a.base = .cell (.integer k) := by
  unfold indexKind
  simp only
  split
  · next hbase =>
    rw [hbase]
    simp
  · next hnot => exact iff_of_false nofun (hnot k)

/-- The terms of some dimensions add up to the bit pattern of their exact sum. -/
theorem sumTerms_meets (dims : List Dimension) (total? : Option Scalar)
    {coordinates : List Scalar} {ns : List Int} (hc : s.Counts k coordinates ns)
    (hdims : ∀ d ∈ dims, d.axis < ns.length)
    (htotal : s.HoldsTotal k total? x) (hp : ¬ (∀ d ∈ dims, k.Fits d) → p) :
    Meets Grows s (sumTerms k coordinates dims total?)
      (fun sum? s' => (∀ d ∈ dims, k.Fits d) ∧ s'.HoldsTotal k sum?
        (x + BitVec.ofInt k.width (dims.map (·.shift ns)).sum))
      (Blocked p) := by
  induction dims generalizing s total? x with
  | nil => exact .pure ⟨by simp, by simpa using htotal⟩
  | cons d dims ih =>
    obtain ⟨hd, hdims⟩ := List.forall_mem_cons.mp hdims
    obtain ⟨a, ha, hholds⟩ := hc.getElem? hd
    unfold sumTerms
    simp only [ha]
    have hterm := indexTerm_meets d (p := p)
      (fun h => hp fun hall => h (hall d List.mem_cons_self)) hholds
    refine hterm.bind fun term s₁ hs₁ ⟨hfits, hterm⟩ => ?_
    refine (addTerm_meets (htotal.mono hs₁) hterm).bind fun total s₂ hs₂ htotal => ?_
    refine (ih (some total) (hc.mono (hs₁.trans hs₂)) hdims htotal fun h =>
      hp fun hall => h (List.forall_mem_cons.mp hall).2).imp ?_ fun _ h => h
    intro sum? s₃ _ ⟨hall, hsum⟩
    refine ⟨List.forall_mem_cons.mpr ⟨hfits, hall⟩, ?_⟩
    simp only [List.map_cons, List.sum_cons, BitVec.ofInt_add, BitVec.ofInt_mul, Dimension.shift,
      BitVec.ofInt_natCast, ← BitVec.add_assoc, BitVec.mul_comm (BitVec.ofNat _ d.stride)] at hsum ⊢
    exact hsum

/-- The offset computed from scalars that hold any numbers has the bits of their displacement. -/
theorem calculateOffset_meets {l : Layout} {coordinates : List Scalar} {ns : List Int}
    (hl : l.WellFormed) (hlength : ns.length = l.rank) (hc : s.Counts k coordinates ns)
    (hkind : indexKind coordinates = .ok k)
    (hp : ¬ (∀ d ∈ l.dims, k.Fits d) → p) :
    Meets Grows s (calculateOffset l coordinates)
      (fun a s' => (∀ d ∈ l.dims, k.Fits d) ∧
        s'.Holds k a (BitVec.ofInt k.width (l.displacement ns)))
      (Blocked p) := by
  have hrank : l.checkRank coordinates.length = .ok () := by
    rw [hc.length_eq, hlength, Layout.checkRank, if_pos rfl]
  have hsum := sumTerms_meets l.dims none (x := 0#k.width) hc
    (fun d hd => hlength ▸ Layout.axis_lt hl hd) rfl hp
  unfold calculateOffset
  refine .step (a := ()) (by rw [hrank]; exact exec_lift s _) ?_
  refine .step (a := k) (by rw [hkind]; exact exec_lift s _) ?_
  refine hsum.bind fun total? s' _ ⟨hfits, htotal⟩ => ?_
  rw [BitVec.zero_add] at htotal
  cases total? with
  | some total => exact .pure ⟨hfits, htotal⟩
  | none =>
    have hzero : BitVec.ofNat k.width 0 = BitVec.ofInt k.width (l.displacement ns) := htotal.symm
    have hpos := k.bound_le.2
    refine (indexConstant_meets s' k 0 (by omega)).imp (fun a s'' _ ha => ⟨hfits, ?_⟩) fun _ h => h
    rw [← hzero]
    exact ha.2

variable {v : Value} {l : Layout} {slot : Slot} {data : Data}

theorem offset_meets (hv : s.Backing v l slot data) (ha : s.Holds k a x)
    (hp : ¬ (x.toNat < k.bound ∧ slot.start + x.toNat < data.size) → p) :
    Meets Grows s (offset v a)
      (fun w s' => (x.toNat < k.bound ∧ slot.start + x.toNat < data.size) ∧
        s'.Points w v.type ⟨slot.buffer, slot.start + x.toNat⟩)
      (Blocked p) := by
  obtain ⟨h, hhandle, hslot, hbuffer⟩ := hv.exists_handle
  obtain ⟨slot', data', ha', -⟩ := id ha
  have hintegral : a.base.isIntegral = true := by
    rw [Scalar.base, ha.base_eq]
    rfl
  have hindex := Datum.toIndex_integer k x
  unfold offset
  refine .step (a := ()) (by rw [hv.ensureDefined_eq]; exact exec_lift s _) ?_
  refine .step (a := ()) (by rw [ha'.ensureDefined_eq]; exact exec_lift s _) ?_
  simp only [hintegral, Bool.not_true, Bool.false_eq_true, if_false]
  refine .step (a := h) (by rw [hhandle]; exact exec_lift s _) ?_
  refine .step (a := slot) (by rw [exec_reading, hslot]) ?_
  refine .step (a := .integer k x) (by rw [exec_reading, ha.element_eq]) ?_
  by_cases hx : x.toNat < k.bound
  · refine .step (a := x.toNat) (by rw [hindex.1 hx]; exact exec_lift s _) ?_
    refine .step (a := data.size) (by simp only [exec_reading, hbuffer]; rfl) ?_
    by_cases hinside : slot.start + x.toNat < data.size
    · rw [if_pos hinside]
      by_cases hroom : s.slots.size < handleLimit
      · refine .of_ok (a := ⟨v.type, some .scalar, some ⟨s.slots.size⟩⟩) ?_
          (s.grows_pushSlot ⟨slot.buffer, slot.start + x.toNat⟩)
          ⟨⟨hx, hinside⟩, ⟨s.slots.size⟩, rfl, Array.getElem?_push_size⟩
        simp only [exec_bind, exec_newSlot, hroom, if_true, exec_pure]
      · refine .of_error (e := .backend .handlesExhausted) ?_ (.refl s)
          (Or.inl (Nat.le_of_not_lt hroom))
        simp only [exec_bind, exec_newSlot, hroom, if_false]
    · rw [if_neg hinside]
      exact .of_error (exec_throw s _) (.refl s) (Or.inr (hp fun h => hinside h.2))
  · obtain ⟨e, he⟩ := hindex.2 hx
    refine .of_error (e := e) ?_ (.refl s) (Or.inr (hp fun h => hx h.1))
    rw [exec_bind, he, exec_lift]

/-- A computed view is at the address taken as a bit pattern. All that it needs besides handles is that
this is a position in the buffer and that the numbers of the layout fit. -/
theorem offsetAt_meets_of_kind {coordinates : List Scalar} {c : List Nat}
    (hv : s.Backing v l slot data) (hin : l.InRange c) (hc : s.Indexes k coordinates c)
    (hkind : indexKind coordinates = .ok k) :
    Meets Grows s (offsetAt v coordinates)
      (fun w s' => k.Reaches l slot.start data.size (l.address c) ∧
        s'.Points w v.type ⟨slot.buffer, slot.start + l.address c % 2 ^ k.width⟩)
      (Blocked ¬ k.Reaches l slot.start data.size (l.address c)) := by
  unfold offsetAt
  refine .step (a := ()) (by rw [hv.ensureDefined_eq]; exact exec_lift s _) ?_
  refine .step (a := l) (by rw [hv.layout_eq]; exact exec_lift s _) ?_
  have hlength : (c.map ((↑) : Nat → Int)).length = l.rank := by
    rw [List.length_map, hin.length_eq_rank]
  have hcompute := calculateOffset_meets hv.wellFormed hlength hc.counts hkind
    (p := ¬ k.Reaches l slot.start data.size (l.address c))
    fun hfits hreaches => hfits hreaches.fits
  rw [Layout.displacement_natCast, BitVec.ofInt_natCast] at hcompute
  refine hcompute.bind fun a s' hs' ⟨hfits, ha⟩ => ?_
  have hnat : (BitVec.ofNat k.width (l.address c)).toNat = l.address c % 2 ^ k.width :=
    BitVec.toNat_ofNat ..
  have hoffset := offset_meets (hv.mono hs') ha
    (p := ¬ k.Reaches l slot.start data.size (l.address c)) fun h hreaches =>
      h (by rw [hnat]; exact ⟨hreaches.bound, hreaches.inside⟩)
  rw [hnat] at hoffset
  exact hoffset.imp (fun w _ _ ⟨⟨hbound, hinside⟩, hw⟩ => ⟨⟨hfits, hbound, hinside⟩, hw⟩) fun _ h => h

theorem offsetAt_meets {coordinates : List Scalar} {c : List Nat} (hv : s.Backing v l slot data)
    (hin : l.InRange c) (hc : s.Indexes k coordinates c) :
    Meets Grows s (offsetAt v coordinates)
      (fun w s' => k.Reaches l slot.start data.size (l.address c) ∧
        s'.Points w v.type ⟨slot.buffer, slot.start + l.address c % 2 ^ k.width⟩)
      (Blocked ¬ k.Reaches l slot.start data.size (l.address c)) := by
  cases hc with
  | nil =>
    -- without coordinates the offset is computed in 32 bits, whatever the kind
    have hdims : l.dims = [] := by
      have hlength := hin.length_eq
      rw [Layout.length_logicalSize] at hlength
      exact List.length_eq_zero_iff.mp hlength.symm
    have haddress : l.address [] = 0 := by rw [Layout.address, hdims]; rfl
    have hreaches : ∀ k' : IntKind, k'.Reaches l slot.start data.size 0 := fun k' => {
      fits := by simp [hdims]
      bound := by rw [Nat.zero_mod]; exact k'.bound_le.2
      inside := by
        have hlt := hv.address_lt hin
        rw [haddress] at hlt
        rwa [Nat.zero_mod] }
    have hmeets := offsetAt_meets_of_kind (k := .int32) hv hin List.Forall₂.nil rfl
    rw [haddress, Nat.zero_mod] at hmeets ⊢
    exact hmeets.imp (fun _ _ _ h => ⟨hreaches k, h.2⟩) fun _ h => h.imp id fun h =>
      absurd (hreaches .int32) h
  | cons hd htail =>
    obtain ⟨x, hx, hn⟩ := id hd
    exact offsetAt_meets_of_kind hv hin (.cons hd htail) (indexKind_eq_ok_iff.mpr hx.base_eq)

/-- A computed view shows the cell of the host address exactly when that is below the bound of the type
of the coordinates. A larger address wraps around, and the view shows another cell whenever the
wrapped address is a position in the buffer and no number of the layout fails to fit. -/
theorem offsetAt_host_iff {coordinates : List Scalar} {c : List Nat}
    (hv : s.Backing v l slot data) (hin : l.InRange c) (hc : s.Indexes k coordinates c) :
    ∃ i, l.entryOffset c = .ok i ∧
      (∀ w s', (offsetAt v coordinates).exec s = (.ok w, s') →
        s'.Points w v.type ⟨slot.buffer, slot.start + i % 2 ^ k.width⟩ ∧
          (s'.Points w v.type ⟨slot.buffer, slot.start + i⟩ ↔ i < k.bound)) ∧
      (((offsetAt v coordinates).exec s).2.slots.size < handleLimit →
        ((∃ w, ((offsetAt v coordinates).exec s).1 = .ok w) ↔
          k.Reaches l slot.start data.size i)) := by
  have hle := k.bound_le.1
  refine ⟨l.address c, hin.entryOffset_eq hv.wellFormed, ?_⟩
  rcases (offsetAt_meets hv hin hc).cases with
    ⟨w, s', hexec, -, hreaches, hw⟩ | ⟨e, s', hexec, -, hblocked⟩
  · rw [hexec]
    refine ⟨?_, fun _ => ⟨fun _ => hreaches, fun _ => ⟨w, rfl⟩⟩⟩
    rintro w' s'' heq
    obtain ⟨rfl, rfl⟩ : w = w' ∧ s' = s'' := by simpa using heq
    refine ⟨hw, fun hhost => ?_, fun hlt => ?_⟩
    · obtain ⟨h, rfl, hslot⟩ := hw
      obtain ⟨h', heq', hslot'⟩ := hhost
      obtain rfl : h = h' := by simpa using heq'
      have hstart : slot.start + l.address c % 2 ^ k.width = slot.start + l.address c := by
        simpa using hslot.symm.trans hslot'
      have hbound := hreaches.bound
      omega
    · rwa [Nat.mod_eq_of_lt (by omega)] at hw
  · rw [hexec]
    refine ⟨fun w' s'' heq => (nomatch heq), fun hroom => ⟨fun ⟨w, hw⟩ => (nomatch hw), fun h => ?_⟩⟩
    exact absurd h (hblocked.resolve_left (Nat.not_le_of_lt hroom))

section Wrapping

/-- A square of 400 cells, and two scalars of a kind for the coordinates (13, 0). -/
def square (k : IntKind) : Store Unit :=
  { Store.empty with
    buffers := #[.zeros .boolean 400, single k 13, single k 0]
    slots := #[⟨0, 0⟩, ⟨1, 0⟩, ⟨2, 0⟩] }

def squareLayout : Layout := ⟨[⟨20, 20, 0, 20, 0⟩, ⟨20, 20, 0, 1, 1⟩]⟩

def squareValue : Value := ⟨.plain .boolean, some squareLayout, some ⟨0⟩⟩

def squareCoordinates (k : IntKind) : List Scalar := [scalarAt k 1, scalarAt k 2]

theorem square_backing (k : IntKind) : (square k).Backing squareValue squareLayout ⟨0, 0⟩
    (.zeros .boolean 400) where
  layout := rfl
  obtainable := ⟨.sizes [20, 20], rfl⟩
  handle := ⟨⟨0⟩, rfl, rfl⟩
  cells := rfl
  base := rfl
  room := by rw [Data.size_zeros]; decide
  fits := by rw [Data.size_zeros]; decide

/-- Every kind has a pattern for 13. -/
theorem square_indexes (k : IntKind) : (square k).Indexes k (squareCoordinates k) [13, 0] :=
  .cons ⟨_, holds_single rfl rfl, by cases k <;> rfl⟩
    (.cons ⟨_, holds_single rfl rfl, by cases k <;> rfl⟩ .nil)

theorem square_room (k : IntKind) :
    ((offsetAt squareValue (squareCoordinates k)).exec (square k)).2.slots.size < handleLimit := by
  cases k <;> decide +kernel

theorem square_inRange : squareLayout.InRange [13, 0] :=
  .cons (by decide) (.cons (by decide) .nil)

/-- In 32 bits the host's cell is found. -/
theorem offsetAt_host_square : squareLayout.entryOffset [13, 0] = .ok 260 ∧
    ∃ w s', (offsetAt squareValue (squareCoordinates .int32)).exec (square .int32) = (.ok w, s') ∧
      s'.Points w squareValue.type ⟨0, 260⟩ := by
  have hhost : squareLayout.entryOffset [13, 0] = .ok 260 := rfl
  have hroom := square_room .int32
  obtain ⟨i, hi, hview, hsuccess⟩ :=
    offsetAt_host_iff (square_backing .int32) square_inRange (square_indexes .int32)
  obtain rfl := Except.ok.inj (hhost.symm.trans hi)
  rw [Data.size_zeros] at hsuccess
  rcases hexec : (offsetAt squareValue (squareCoordinates .int32)).exec (square .int32) with ⟨r, s'⟩
  rw [hexec] at hroom hsuccess
  obtain ⟨w, rfl⟩ := (hsuccess hroom).mpr ⟨by decide, by decide, by decide⟩
  exact ⟨hhost, w, s', rfl, (hview w s' hexec).2.mpr (by decide)⟩

/-- The address 260 is none of a byte, and the cell of its remainder is taken for it. -/
theorem offsetAt_wraps : squareLayout.entryOffset [13, 0] = .ok 260 ∧
    ∃ w s', (offsetAt squareValue (squareCoordinates .byte)).exec (square .byte) = (.ok w, s') ∧
      s'.Points w squareValue.type ⟨0, 4⟩ ∧ ¬ s'.Points w squareValue.type ⟨0, 260⟩ := by
  have hreaches : IntKind.byte.Reaches squareLayout 0 400 260 := {
    fits := by decide
    bound := by decide
    inside := by decide }
  have hroom := square_room .byte
  have hmeets := offsetAt_meets (square_backing .byte) square_inRange (square_indexes .byte)
  rw [Data.size_zeros] at hmeets
  refine ⟨rfl, ?_⟩
  rcases hmeets.cases with ⟨w, s', hexec, -, -, hw⟩ | ⟨e, s', hexec, -, hblocked⟩
  · refine ⟨w, s', hexec, hw, ?_⟩
    rintro ⟨h', heq, hslot'⟩
    obtain ⟨h, rfl, hslot⟩ := hw
    obtain rfl : h = h' := by simpa using heq
    cases hslot.symm.trans hslot'
  · rw [hexec] at hroom
    exact absurd hreaches (hblocked.resolve_left (Nat.not_le_of_lt hroom))

end Wrapping

end Action

end Emission
