import Emission.Proofs.Store.Checks
import Emission.Proofs.Store.Indexing
import Mathlib.Data.Int.ModEq

/-!
Offsets computed from stored numbers, whatever these are. The operations wrap around, so what comes out is the
exact displacement up to a multiple of the number of bit patterns, for coordinates out of range and negative
ones too. Besides handles it only takes that the numbers of the layout fit. All coordinates enter the sum, since
each axis is held by a dimension, and a sum is defined on one type only.
-/
namespace Emission

open Emission.Action

variable {Body : Type}

namespace Store

variable {s s' : Store Body} {k : IntKind} {a : Scalar} {x : BitVec k.width}

/-- The number that a scalar holds; what is no integer counts as zero. -/
def number (s : Store Body) (a : Scalar) : Int :=
  match s.element a with
  | .ok (.integer k x) => k.toInt x
  | _ => 0

theorem Holds.number_eq (h : s.Holds k a x) : s.number a = k.toInt x := by
  unfold number
  rw [h.element_eq]

theorem counts_number {coordinates : List Scalar}
    (h : ∀ a ∈ coordinates, s.Backed a.value ∧ a.base = .cell (.integer k)) :
    s.Counts k coordinates (coordinates.map s.number) := by
  unfold Counts
  rw [List.forall₂_map_right_iff, List.forall₂_same]
  intro a ha
  obtain ⟨x, hx⟩ := (h a ha).1.holds (h a ha).2
  rwa [hx.number_eq, k.ofInt_toInt]

end Store

namespace Action

open Store

section Types

variable {s s' : Store Body} {v w r : Value} {a b c : Scalar} {k : IntKind} {op : Arithmetic}
  {coordinates : List Scalar}

theorem base_of_arithmetic (h : (arithmetic op v w).exec s = (.ok r, s')) :
    v.base = w.base ∧ r.base = v.base := by
  by_cases hsame : Commensurable v w
  · obtain ⟨k, hk⟩ := exists_kind_of_numeric hsame.2
    rw [arithmetic_eq op hsame hk] at h
    obtain ⟨_, _, -, h⟩ := exec_bind_eq_ok_iff.mp h
    obtain ⟨_, _, -, h⟩ := exec_bind_eq_ok_iff.mp h
    obtain ⟨_, _, -, h⟩ := exec_bind_eq_ok_iff.mp h
    obtain ⟨_, _, -, h⟩ := exec_bind_eq_ok_iff.mp h
    obtain ⟨_, _, -, rfl⟩ := tabulate_eq_ok h
    exact ⟨hsame.1, hk.symm⟩
  · obtain ⟨e, he⟩ := exec_arithmetic_refused op hsame s
    rw [he] at h
    cases h

theorem base_of_ofValue (h : Scalar.ofValue v = .ok c) : c.base = v.base := by
  unfold Scalar.ofValue at h
  split at h
  · obtain rfl := Except.ok.inj h
    rfl
  · obtain rfl := Except.ok.inj h
    rfl
  · cases h

theorem base_of_scalarArithmetic (h : (scalarArithmetic op a b).exec s = (.ok c, s')) :
    a.base = b.base ∧ c.base = a.base := by
  unfold scalarArithmetic at h
  obtain ⟨v, s₁, hv, h⟩ := exec_bind_eq_ok_iff.mp h
  rw [exec_lift] at h
  obtain ⟨hsame, hbase⟩ := base_of_arithmetic hv
  exact ⟨hsame, (base_of_ofValue (Prod.mk.inj h).1).trans hbase⟩

theorem base_of_applyNumber {u n : Nat} (h : (applyNumber k op u n a).exec s = (.ok c, s')) :
    c.base = a.base := by
  unfold applyNumber at h
  split at h
  · obtain rfl := Except.ok.inj (Prod.mk.inj h).1
    rfl
  · obtain ⟨b, s₁, -, h⟩ := exec_bind_eq_ok_iff.mp h
    exact (base_of_scalarArithmetic h).2

theorem base_of_indexTerm {d : Dimension} (h : (indexTerm k d a).exec s = (.ok c, s')) :
    c.base = a.base := by
  unfold indexTerm at h
  obtain ⟨b, s₁, hb, h⟩ := exec_bind_eq_ok_iff.mp h
  exact (base_of_applyNumber h).trans (base_of_applyNumber hb)

theorem base_of_addTerm {total? : Option Scalar} (h : (addTerm total? a).exec s = (.ok c, s')) :
    c.base = a.base ∧ ∀ t ∈ total?, t.base = a.base := by
  unfold addTerm at h
  cases total? with
  | none =>
    obtain rfl := Except.ok.inj (Prod.mk.inj h).1
    exact ⟨rfl, by simp⟩
  | some t =>
    obtain ⟨hsame, hbase⟩ := base_of_scalarArithmetic h
    refine ⟨hbase.trans hsame, fun t' ht => ?_⟩
    obtain rfl := Option.some.inj ht
    exact hsame

/-- Terms that can be added up come from coordinates of one type. -/
theorem base_of_sumTerms {dims : List Dimension} {total? sum? : Option Scalar}
    (h : (sumTerms k coordinates dims total?).exec s = (.ok sum?, s')) :
    ∃ type, (∀ t ∈ total?, t.base = type) ∧
      ∀ d ∈ dims, ∀ a ∈ coordinates[d.axis]?, a.base = type := by
  induction dims generalizing s total? with
  | nil =>
    cases total? with
    | none => exact ⟨.void, by simp, by simp⟩
    | some t => exact ⟨t.base, by simp, by simp⟩
  | cons d dims ih =>
    unfold sumTerms at h
    split at h
    · next a ha =>
      obtain ⟨term, s₁, hterm, h⟩ := exec_bind_eq_ok_iff.mp h
      obtain ⟨total, s₂, htotal, h⟩ := exec_bind_eq_ok_iff.mp h
      obtain ⟨type, hsum, hrest⟩ := ih h
      obtain ⟨hbase, hbefore⟩ := base_of_addTerm htotal
      have hsame : a.base = type := by
        rw [← hsum total rfl, hbase, base_of_indexTerm hterm]
      refine ⟨type, fun t ht => ?_, List.forall_mem_cons.mpr ⟨fun a' ha' => ?_, hrest⟩⟩
      · rw [hbefore t ht, base_of_indexTerm hterm, hsame]
      · obtain rfl := Option.some.inj (ha.symm.trans ha')
        exact hsame
    · cases h

/-- An offset is computed from as many coordinates as there are axes, the first of which is an integer and the
others of its type. -/
theorem calculateOffset_eq_ok {l : Layout} (hl : l.WellFormed)
    (h : (calculateOffset l coordinates).exec s = (.ok a, s')) :
    coordinates.length = l.rank ∧ (∃ k, indexKind coordinates = .ok k) ∧
      ∃ type, ∀ b ∈ coordinates, b.base = type := by
  unfold calculateOffset at h
  obtain ⟨_, s₁, hrank, h⟩ := exec_bind_eq_ok_iff.mp h
  obtain ⟨k, s₂, hkind, h⟩ := exec_bind_eq_ok_iff.mp h
  obtain ⟨sum?, s₃, hsum, -⟩ := exec_bind_eq_ok_iff.mp h
  rw [exec_lift] at hrank hkind
  have hlength : coordinates.length = l.rank := by
    have hcheck := (Prod.mk.inj hrank).1
    unfold Layout.checkRank at hcheck
    split at hcheck
    · assumption
    · cases hcheck
  obtain ⟨type, -, hall⟩ := base_of_sumTerms hsum
  refine ⟨hlength, ⟨k, (Prod.mk.inj hkind).1⟩, type, fun b hb => ?_⟩
  obtain ⟨i, hi, rfl⟩ := List.getElem_of_mem hb
  -- some dimension holds the axis of the coordinate
  have hmem : i ∈ l.order := hl.axes.mem_iff.mpr (List.mem_range.mpr (hlength ▸ hi))
  obtain ⟨d, hd, rfl⟩ := List.mem_map.mp hmem
  exact hall d hd _ (List.getElem?_eq_getElem hi)

end Types

section Exactness

variable {k : IntKind} {coordinates : List Scalar}

/-- An action that does not succeed fails. -/
theorem exists_error {α : Type} {x : Action Body α} {s : Store Body}
    (h : ∀ a s', x.exec s ≠ (.ok a, s')) : ∃ e, (x.exec s).1 = .error e := by
  rcases hexec : x.exec s with ⟨e | a, s'⟩
  · exact ⟨e, rfl⟩
  · exact absurd hexec (h a s')

/-- An offset is never computed from too few or too many coordinates, from a first one that is no integer, or
from two of different types. From as many backed coordinates of one integral type as there are axes, it is
computed as long as there are handles exactly if the offsets and strides that are applied fit in the type, and
then it is the number of the type that is congruent to the exact sum. -/
theorem calculateOffset_exact {l : Layout} (hl : l.Obtainable) (s : Store Body)
    (coordinates : List Scalar) :
    (coordinates.length ≠ l.rank → ∃ e, ((calculateOffset l coordinates).exec s).1 = .error e) ∧
    (∀ a ∈ coordinates.head?, a.base.isIntegral = false →
      ∃ e, ((calculateOffset l coordinates).exec s).1 = .error e) ∧
    (∀ a ∈ coordinates, ∀ b ∈ coordinates, a.base ≠ b.base →
      ∃ e, ((calculateOffset l coordinates).exec s).1 = .error e) ∧
    ∀ k : IntKind, 0 < l.rank → coordinates.length = l.rank →
      (∀ a ∈ coordinates, s.Backed a.value ∧ a.base = .cell (.integer k)) →
      ((calculateOffset l coordinates).exec s).2.slots.size < handleLimit →
        ((∃ a, ((calculateOffset l coordinates).exec s).1 = .ok a) ↔ ∀ d ∈ l.dims, k.Fits d) ∧
        ∀ a s', (calculateOffset l coordinates).exec s = (.ok a, s') →
          a.base = .cell (.integer k) ∧ ∃ x, s'.read a.value = .ok (single k x) ∧
            k.toInt x ≡ l.displacement (coordinates.map s.number) [ZMOD 2 ^ k.width] := by
  have hwell := hl.wellFormed
  refine ⟨fun hlength => ?_, fun a ha hintegral => ?_, fun a ha b hb hne => ?_,
    fun k hrank hlength hbacked hroom => ?_⟩
  · exact exists_error fun _ _ hexec => hlength (calculateOffset_eq_ok hwell hexec).1
  · refine exists_error fun _ _ hexec => ?_
    obtain ⟨-, ⟨k, hk⟩, -⟩ := calculateOffset_eq_ok hwell hexec
    obtain ⟨others, rfl⟩ := List.head?_eq_some_iff.mp ha
    rw [indexKind_eq_ok_iff.mp hk] at hintegral
    cases hintegral
  · refine exists_error fun _ _ hexec => ?_
    obtain ⟨-, -, type, hall⟩ := calculateOffset_eq_ok hwell hexec
    exact hne ((hall a ha).trans (hall b hb).symm)
  · have hkind : indexKind coordinates = .ok k := by
      cases coordinates with
      | nil => exact absurd hlength (Nat.ne_of_lt hrank)
      | cons a others => exact indexKind_eq_ok_iff.mpr (hbacked a List.mem_cons_self).2
    have hmeets := calculateOffset_meets (p := ¬ ∀ d ∈ l.dims, k.Fits d) hwell
      (by rw [List.length_map, hlength]) (counts_number hbacked) hkind id
    rcases hmeets.cases with ⟨a, s', hexec, -, hfits, ha⟩ | ⟨e, s', hexec, -, hblocked⟩
    · rw [hexec]
      refine ⟨iff_of_true ⟨a, rfl⟩ hfits, fun a' s'' heq => ?_⟩
      obtain ⟨rfl, rfl⟩ : a = a' ∧ s' = s'' := by simpa using heq
      refine ⟨ha.base_eq, _, ha.read_eq, ?_⟩
      rw [k.toInt_ofInt]
      exact k.wrap_emod _
    · rw [hexec] at hroom ⊢
      have hnot := hblocked.resolve_left (Nat.not_le_of_lt hroom)
      exact ⟨iff_of_false (by simp) hnot, fun a' s'' heq => (nomatch heq)⟩

/-- The 8-bit coordinates (-100, 50) of a padded layout are out of range. Their displacement is 259, and 3 is
what is stored. -/
theorem calculateOffset_exact_negative :
    let k : IntKind := .char8
    let l : Layout := ⟨[⟨2, 4, 1, 7, 1⟩, ⟨3, 7, 2, 1, 0⟩]⟩
    let coordinates := [scalarAt k 0, scalarAt k 1]
    let s : Store Unit := { (Store.empty : Store Unit) with
      buffers := #[single k (-100), single k 50]
      slots := #[⟨0, 0⟩, ⟨1, 0⟩] }
    l.Obtainable ∧ (∀ a ∈ coordinates, s.Backed a.value ∧ a.base = .cell (.integer k)) ∧
      coordinates.map s.number = [-100, 50] ∧
      ((calculateOffset l coordinates).exec s).2.slots.size < handleLimit ∧
      ∃ a s' x, (calculateOffset l coordinates).exec s = (.ok a, s') ∧
        s'.read a.value = .ok (single k x) ∧ k.toInt x ≡ 259 [ZMOD 2 ^ 8] := by
  intro k l coordinates s
  have hl : l.Obtainable := ⟨.reordered (.padded [2, 3] [1, 2]) [1, 0], rfl⟩
  have hfirst : s.Holds k (scalarAt k 0) (-100) := holds_single rfl rfl
  have hsecond : s.Holds k (scalarAt k 1) 50 := holds_single rfl rfl
  have hbacked : ∀ a ∈ coordinates, s.Backed a.value ∧ a.base = .cell (.integer k) := by
    simp only [coordinates, List.forall_mem_cons, List.not_mem_nil, false_imp_iff, implies_true, and_true]
    exact ⟨⟨hfirst.backed, hfirst.base_eq⟩, hsecond.backed, hsecond.base_eq⟩
  have hnumbers : coordinates.map s.number = [-100, 50] := by
    simp only [coordinates, List.map_cons, List.map_nil, hfirst.number_eq, hsecond.number_eq]
    rfl
  have hroom : ((calculateOffset l coordinates).exec s).2.slots.size < handleLimit := by decide +kernel
  have hsum : l.displacement [-100, 50] = 259 := rfl
  obtain ⟨hiff, hread⟩ := (calculateOffset_exact hl s coordinates).2.2.2 k (by decide) rfl hbacked hroom
  refine ⟨hl, hbacked, hnumbers, hroom, ?_⟩
  rcases hexec : (calculateOffset l coordinates).exec s with ⟨r, s'⟩
  rw [hexec] at hiff hread
  obtain ⟨a, rfl⟩ := hiff.mpr (by decide)
  obtain ⟨-, x, hx, hmod⟩ := hread a s' rfl
  rw [hnumbers, hsum] at hmod
  exact ⟨a, s', x, rfl, hx, hmod⟩

end Exactness

end Action

end Emission
