import Emission.Datum.Basic

/-!
Arrays of elements of one kind. They are the buffers of storage, the constants given to it and the answers
read from it. What is stored is converted to the array's kind first, so the kind and the length never change.
An array that is asked for is allocated as a whole, which ends in a panic when it is longer than any memory.
-/
namespace Emission

structure Data where
  kind : Kind
  cells : Array Datum
  uniform : ∀ d ∈ cells, d.kind = kind

/-- The kind of the elements of a type, if storage can hold them. -/
def ElementType.storable : ElementType → Except Failure Kind
  | plain (.cell k) => .ok k
  | type => .error (.invalidValueType (.unstorable type))

/-- So many cells there are in no memory. Eight bytes each they are more than can be asked for at once. -/
def cellLimit : Nat := 1 <<< 60

/-- Room for some elements. -/
def reserve (k : Kind) (n : Nat) : Except Failure Unit :=
  if n < cellLimit then .ok () else .error (.panic (.allocation (n * k.sizeInBytes)))

namespace Data

def size (a : Data) : Nat := a.cells.size

def isEmpty (a : Data) : Bool := a.size == 0

def zeros (k : Kind) (n : Nat) : Data where
  kind := k
  cells := Array.replicate n (.zero k)
  uniform := by
    intro d hd
    rw [(Array.mem_replicate.mp hd).2, Datum.kind_zero]

def zeroed (type : ElementType) (n : Nat) : Except Failure Data := do
  let k ← type.storable
  reserve k n
  return zeros k n

/-- The array of some elements, converted to the kind. -/
def ofList (k : Kind) (elements : List Datum) : Data where
  kind := k
  cells := (elements.map (·.convert k)).toArray
  uniform := by
    intro d hd
    obtain ⟨a, _, rfl⟩ := List.mem_map.mp (List.mem_toArray.mp hd)
    exact Datum.kind_convert a k

def toList (a : Data) : List Datum := a.cells.toList

def load (a : Data) (i : Nat) : Except Failure Datum :=
  match a.cells[i]? with
  | some d => .ok d
  | none => .error (.invalidArgument (.elementOutside i a.size))

/-- The array with one element replaced; nothing changes outside its range. -/
def set (a : Data) (i : Nat) (d : Datum) : Data where
  kind := a.kind
  cells := a.cells.setIfInBounds i (d.convert a.kind)
  uniform := by
    intro x hx
    rw [← Array.mem_toList_iff, Array.toList_setIfInBounds] at hx
    rcases List.mem_or_eq_of_mem_set hx with h | rfl
    · exact a.uniform x (Array.mem_toList_iff.mp h)
    · exact Datum.kind_convert d a.kind

@[simp] theorem size_zeros (k : Kind) (n : Nat) : (zeros k n).size = n := by
  simp [zeros, size]

@[simp] theorem size_ofList (k : Kind) (elements : List Datum) :
    (ofList k elements).size = elements.length := by
  simp [ofList, size]

@[simp] theorem size_set (a : Data) (i : Nat) (d : Datum) : (a.set i d).size = a.size := by
  simp [set, size]

@[simp] theorem kind_set (a : Data) (i : Nat) (d : Datum) : (a.set i d).kind = a.kind := rfl

end Data

/-- An array that is in memory already. -/
structure Constant where
  data : Data
  fits : data.size < cellLimit

/-- A single element. -/
def Constant.single (k : Kind) (d : Datum) : Constant where
  data := .ofList k [d]
  fits := by
    rw [Data.size_ofList, List.length_singleton]
    decide

end Emission
