import Emission.Data
import Emission.Proofs.Outcome

/-!
The elements of arrays by their positions. All of them have the array's kind, so what is stored
without leaving the kind is stored as it is. There is room for every array that is short enough, and for
elements of eight bytes as far as they can be asked for at once.
-/
namespace Emission

section Room

variable {k : Kind} {n : Nat}

theorem one_lt_cellLimit : 1 < cellLimit := by decide

@[simp] theorem reserve_of_lt (h : n < cellLimit) : reserve k n = .ok () := if_pos h

theorem reserve_of_not_lt (h : ¬ n < cellLimit) :
    reserve k n = .error (.panic (.allocation (n * k.sizeInBytes))) := if_neg h

theorem reserve_eq_ok_iff : reserve k n = .ok () ↔ n < cellLimit := by
  by_cases h : n < cellLimit
  · simp [h]
  · simp [h, reserve_of_not_lt h]

/-- The widest elements have room as long as their bytes can be asked for at once. -/
theorem reserve_wide_iff (hk : k.sizeInBytes = 8) :
    reserve k n = .ok () ↔ n * k.sizeInBytes ≤ allocationLimit := by
  have hcells : cellLimit = 1152921504606846976 := rfl
  have hbytes : allocationLimit = 9223372036854775807 := rfl
  rw [reserve_eq_ok_iff, hk, hcells, hbytes]
  omega

end Room

end Emission

namespace Emission.Data

/-- The element at a position, and a zero beyond the end. -/
def get (a : Data) (i : Nat) : Datum := a.cells.getD i (.zero a.kind)

theorem ext {a b : Data} (hkind : a.kind = b.kind) (hcells : a.cells = b.cells) : a = b := by
  cases a
  cases b
  cases hkind
  cases hcells
  rfl

@[simp] theorem kind_get (a : Data) (i : Nat) : (a.get i).kind = a.kind := by
  unfold get
  by_cases hi : i < a.cells.size
  · rw [Array.getD_eq_getD_getElem?, Array.getElem?_eq_getElem hi, Option.getD_some]
    exact a.uniform _ (Array.getElem_mem hi)
  · rw [Array.getD_eq_getD_getElem?, Array.getElem?_eq_none (by omega), Option.getD_none]
    exact Datum.kind_zero a.kind

theorem getElem?_cells {a : Data} {i : Nat} (hi : i < a.size) : a.cells[i]? = some (a.get i) := by
  rw [get, Array.getD_eq_getD_getElem?, Array.getElem?_eq_getElem hi, Option.getD_some]

theorem load_of_lt {a : Data} {i : Nat} (hi : i < a.size) : a.load i = .ok (a.get i) := by
  simp only [load, getElem?_cells hi]

theorem convert_of_kind {d : Datum} {k : Kind} (h : d.kind = k) : d.convert k = d := by
  rw [← h, Datum.convert_self]

theorem toList_ofList {k : Kind} {elements : List Datum} (h : ∀ d ∈ elements, d.kind = k) :
    (ofList k elements).toList = elements := by
  have hmap : elements.map (·.convert k) = elements.map id :=
    List.map_congr_left fun d hd => convert_of_kind (h d hd)
  rw [List.map_id] at hmap
  simp only [ofList, toList, hmap]

@[simp] theorem length_toList (a : Data) : a.toList.length = a.size := by
  simp [toList, size]

theorem getElem_toList {a : Data} {i : Nat} (hi : i < a.toList.length) :
    a.toList[i] = a.get i := by
  have h := getElem?_cells (a := a) (by simpa using hi)
  rw [← Array.getElem?_toList] at h
  exact (List.getElem?_eq_some_iff.mp h).2

theorem get_zero_of_cons {a : Data} {d : Datum} {ds : List Datum} (h : a.toList = d :: ds) :
    a.get 0 = d := by
  rw [← getElem_toList (i := 0) (by simp [h])]
  simp [h]

theorem kind_of_mem {a : Data} {d : Datum} (h : d ∈ a.toList) : d.kind = a.kind :=
  a.uniform d (Array.mem_toList_iff.mp h)

/-- The elements of an array have its kind already. -/
theorem ofList_toList (a : Data) : ofList a.kind a.toList = a := by
  have hlist := toList_ofList fun _ hd => kind_of_mem (a := a) hd
  exact ext rfl (Array.toList_inj.mp hlist)

/-- An array is given by its kind, its length and its elements. -/
theorem ext_get {a b : Data} (hkind : a.kind = b.kind) (hsize : a.size = b.size)
    (h : ∀ i < b.size, a.get i = b.get i) : a = b := by
  refine ext hkind (Array.ext hsize fun i hi hi' => ?_)
  have hget := h i hi'
  have ha := getElem?_cells (a := a) hi
  have hb := getElem?_cells (a := b) hi'
  rw [Array.getElem?_eq_getElem hi] at ha
  rw [Array.getElem?_eq_getElem hi'] at hb
  rw [Option.some.inj ha, Option.some.inj hb, hget]

theorem get_set_self {a : Data} {i : Nat} (hi : i < a.size) (d : Datum) :
    (a.set i d).get i = d.convert a.kind := by
  have h := getElem?_cells (a := a.set i d) (i := i) (by simpa using hi)
  rw [set, Array.getElem?_setIfInBounds_self_of_lt hi] at h
  exact (Option.some.inj h).symm

theorem get_set_ne {a : Data} {i j : Nat} (h : i ≠ j) (d : Datum) :
    (a.set i d).get j = a.get j := by
  simp only [get, set, Array.getD_eq_getD_getElem?, Array.getElem?_setIfInBounds_ne h]

theorem get_ofList {k : Kind} {elements : List Datum} {i : Nat} (hi : i < elements.length) :
    (ofList k elements).get i = elements[i].convert k := by
  have h := getElem?_cells (a := ofList k elements) (i := i) (by simpa using hi)
  simp only [ofList, List.getElem?_toArray, List.getElem?_map, List.getElem?_eq_getElem hi,
    Option.map_some, Option.some.injEq] at h
  exact h.symm

end Emission.Data
