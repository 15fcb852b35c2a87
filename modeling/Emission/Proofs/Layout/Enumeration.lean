import Emission.Proofs.Layout.Coordinates
import Mathlib.Algebra.BigOperators.Ring.List

/-!
The readings of an odometer, call by call. The reading after `i` calls is the expansion of `i` in the mixed
radix of the sizes, up to the last position, and a spent odometer stays spent. The expansion grows
lexicographically with the number, so an odometer passes through its space in lexicographic order.
-/
namespace Emission

/-- The digits of a number in mixed radix, the last one of least weight. -/
def digits : List Nat → Nat → List Nat
  | [], _ => []
  | _ :: sizes, i => i / sizes.prod :: digits sizes (i % sizes.prod)

theorem digits_zero (sizes : List Nat) : digits sizes 0 = sizes.map fun _ => 0 := by
  induction sizes with
  | nil => rfl
  | cons n sizes ih => simp only [digits, Nat.zero_div, Nat.zero_mod, ih, List.map_cons]

/-- Coordinates are the digits of their position. -/
theorem digits_position {sizes c : List Nat} (h : Within sizes c) :
    digits sizes (position sizes c) = c := by
  induction h with
  | nil => rfl
  | @cons n x sizes c _ hc ih =>
    have hlt := position_lt hc
    have hdiv : (x * sizes.prod + position sizes c) / sizes.prod = x := by
      rw [Nat.mul_comm, Nat.mul_add_div (Nat.zero_lt_of_lt hlt), Nat.div_eq_of_lt hlt, Nat.add_zero]
    have hmod : (x * sizes.prod + position sizes c) % sizes.prod = position sizes c := by
      rw [Nat.mul_comm, Nat.mul_add_mod, Nat.mod_eq_of_lt hlt]
    simp only [position, digits, hdiv, hmod, ih]

/-- The digits of a number below the product of the sizes are coordinates. -/
theorem within_digits {sizes : List Nat} {i : Nat} (h : i < sizes.prod) :
    Within sizes (digits sizes i) := by
  induction sizes generalizing i with
  | nil => exact .nil
  | cons n sizes ih =>
    rw [List.prod_cons] at h
    have hpos : 0 < sizes.prod := Nat.pos_of_mul_pos_left (Nat.zero_lt_of_lt h)
    exact .cons ((Nat.div_lt_iff_lt_mul hpos).mpr h) (ih (Nat.mod_lt i hpos))

/-- The number is the sum of its digits, each by its weight. -/
theorem position_digits {sizes : List Nat} {i : Nat} (h : i < sizes.prod) :
    position sizes (digits sizes i) = i := by
  induction sizes generalizing i with
  | nil =>
    rw [List.prod_nil] at h
    simp only [position]
    omega
  | cons n sizes ih =>
    rw [List.prod_cons] at h
    have hpos : 0 < sizes.prod := Nat.pos_of_mul_pos_left (Nat.zero_lt_of_lt h)
    simp only [digits, position, ih (Nat.mod_lt i hpos)]
    rw [Nat.mul_comm]
    exact Nat.div_add_mod i sizes.prod

/-- Positions are in the lexicographic order of the coordinates. -/
theorem position_lt_iff {sizes c c' : List Nat} (h : Within sizes c) (h' : Within sizes c') :
    position sizes c < position sizes c' ↔ c < c' := by
  induction h generalizing c' with
  | nil =>
    cases h'
    simp only [position, Nat.lt_irrefl, List.lt_irrefl]
  | @cons n x sizes c _ hc ih =>
    obtain ⟨x', c', -, hc', rfl⟩ := List.forall₂_cons_left_iff.mp h'
    have hlt := position_lt hc
    have hlt' := position_lt hc'
    rw [List.cons_lt_cons_iff, ← ih hc']
    simp only [position]
    rcases Nat.lt_trichotomy x x' with hx | rfl | hx
    · have hstep : (x + 1) * sizes.prod ≤ x' * sizes.prod := Nat.mul_le_mul_right _ hx
      rw [Nat.add_mul, Nat.one_mul] at hstep
      omega
    · omega
    · have hstep : (x' + 1) * sizes.prod ≤ x * sizes.prod := Nat.mul_le_mul_right _ hx
      rw [Nat.add_mul, Nat.one_mul] at hstep
      omega

/-- The digits of the next number are the successor, and the last number has none. -/
theorem successor?_digits {sizes : List Nat} {i : Nat} (h : i < sizes.prod) :
    successor? sizes (digits sizes i) =
      if i + 1 < sizes.prod then some (digits sizes (i + 1)) else none := by
  have hspec := successor?_spec (within_digits h)
  rw [position_digits h] at hspec
  cases hnext : successor? sizes (digits sizes i) with
  | none =>
    simp only [hnext] at hspec
    rw [if_neg (by omega)]
  | some c =>
    simp only [hnext] at hspec
    have hlt := position_lt hspec.1
    rw [hspec.2] at hlt
    rw [if_pos hlt, ← hspec.2, digits_position hspec.1]

namespace Odometer

/-- One call for a reading: the answer, and the odometer that is left. -/
def call (o : Odometer) : Option (List Nat) × Odometer :=
  match o.next? with
  | some (c, rest) => (some c, rest)
  | none => (none, o)

/-- The odometer after some calls. -/
def after (o : Odometer) : Nat → Odometer
  | 0 => o
  | n + 1 => (o.after n).call.2

/-- The answer to the call that comes after `i` others. -/
def answer (o : Odometer) (i : Nat) : Option (List Nat) := (o.after i).call.1

/-- The odometer with the reading of position `i`, which is spent past the last position. -/
def ofPosition (sizes : List Nat) (i : Nat) : Odometer :=
  ⟨sizes, if i < sizes.prod then some (digits sizes i) else none⟩

theorem start_eq (sizes : List Nat) : start sizes = ofPosition sizes 0 := by
  unfold start ofPosition
  by_cases hzero : 0 ∈ sizes
  · have hprod : sizes.prod = 0 := List.prod_eq_zero hzero
    rw [if_pos (List.contains_iff_mem.mpr hzero), if_neg (by omega)]
  · have hpos : 0 < sizes.prod := Nat.pos_of_ne_zero (mt List.prod_eq_zero_iff.mp hzero)
    rw [if_neg (by rwa [List.contains_iff_mem]), if_pos hpos, digits_zero]

/-- A call answers the position and moves on to the next one. -/
theorem call_ofPosition (sizes : List Nat) (i : Nat) :
    (ofPosition sizes i).call =
      (if i < sizes.prod then some (digits sizes i) else none, ofPosition sizes (i + 1)) := by
  unfold ofPosition
  by_cases h : i < sizes.prod
  · rw [if_pos h]
    simp only [call, next?, Option.map_some, successor?_digits h]
  · rw [if_neg h, if_neg (by omega)]
    rfl

theorem after_start (sizes : List Nat) (n : Nat) :
    (start sizes).after n = ofPosition sizes n := by
  induction n with
  | zero => exact start_eq sizes
  | succ n ih => rw [after, ih, call_ofPosition]

/-- The answers are the positions of the space, and nothing after them. -/
theorem answer_start (sizes : List Nat) (i : Nat) :
    (start sizes).answer i = if i < sizes.prod then some (digits sizes i) else none := by
  rw [answer, after_start, call_ofPosition]

theorem answer_eq_some_iff {sizes c : List Nat} {i : Nat} :
    (start sizes).answer i = some c ↔ Within sizes c ∧ position sizes c = i := by
  rw [answer_start]
  constructor
  · intro h
    obtain ⟨hi, hc⟩ := Option.ite_none_right_eq_some.mp h
    obtain rfl := Option.some.inj hc
    exact ⟨within_digits hi, position_digits hi⟩
  · rintro ⟨hc, rfl⟩
    rw [if_pos (position_lt hc), digits_position hc]

end Odometer

namespace Layout

/-- The list of coordinates holds the answers. -/
theorem getElem?_coordinates {l : Layout} (hl : l.WellFormed) (i : Nat) :
    l.coordinates[i]? = (Odometer.start l.logicalSize).answer i := by
  by_cases hi : i < l.coordinates.length
  · have hin := (coordinates_spec hl).1 _ (List.getElem_mem hi)
    rw [List.getElem?_eq_getElem hi]
    exact (Odometer.answer_eq_some_iff.mpr ⟨hin, position_getElem hl i hi⟩).symm
  · rw [List.getElem?_eq_none (Nat.le_of_not_lt hi), Odometer.answer_start, if_neg]
    rwa [prod_logicalSize hl, ← length_coordinates hl]

/-- Reading coordinates enumerates the index space. There is one answer for each element and none after
them; the answer to call `i` is `i` in the mixed radix of the logical sizes; the answers grow
lexicographically and lie within the sizes, and each vector within the sizes is the answer to exactly one
call. They are the coordinates that an operation on the layout passes through. A layout without
axes has the empty vector only, and one with a size of zero has none. -/
theorem coordinates_enumerate {l : Layout} (hl : l.Obtainable) :
    let answer := (Odometer.start l.logicalSize).answer
    (∀ i, answer i = if i < l.numElements then some (digits l.logicalSize i) else none) ∧
    (∀ i j c c', answer i = some c → answer j = some c' → i < j → c < c') ∧
    (∀ i c, answer i = some c → l.InRange c) ∧
    (∀ c, l.InRange c → ∃! i, answer i = some c) ∧
    (∀ i, l.coordinates[i]? = answer i) ∧
    (l.rank = 0 → l.coordinates = [[]]) ∧
    (0 ∈ l.size → l.coordinates = []) := by
  have hwell := hl.wellFormed
  have hcount := prod_logicalSize hwell
  refine ⟨?_, ?_, ?_, ?_, getElem?_coordinates hwell, ?_, ?_⟩
  · intro i
    rw [← hcount]
    exact Odometer.answer_start _ i
  · intro i j c c' hi hj hij
    obtain ⟨hc, rfl⟩ := Odometer.answer_eq_some_iff.mp hi
    obtain ⟨hc', rfl⟩ := Odometer.answer_eq_some_iff.mp hj
    exact (position_lt_iff hc hc').mp hij
  · intro i c hi
    exact (Odometer.answer_eq_some_iff.mp hi).1
  · intro c hc
    refine ⟨position l.logicalSize c, Odometer.answer_eq_some_iff.mpr ⟨hc, rfl⟩, ?_⟩
    intro i hi
    exact (Odometer.answer_eq_some_iff.mp hi).2.symm
  · intro hrank
    obtain rfl : l = scalar := by
      cases l with
      | mk dims => exact congrArg Layout.mk (List.length_eq_zero_iff.mp hrank)
    rfl
  · intro hzero
    rw [coordinates, firstCoordinates, show l.numElements = 0 from List.prod_eq_zero hzero]
    rfl

/-- A padded layout of two axes that is stored with the second axis first. -/
theorem coordinates_enumerate_padded :
    let l : Layout := ⟨[⟨2, 4, 1, 7, 1⟩, ⟨3, 7, 2, 1, 0⟩]⟩
    let answer := (Odometer.start l.logicalSize).answer
    l.Obtainable ∧ answer 3 = some [1, 1] ∧ answer 6 = none ∧ l.coordinates[3]? = some [1, 1] ∧
      ∃! i, answer i = some [2, 1] := by
  intro l answer
  have hl : l.Obtainable := ⟨.reordered (.padded [2, 3] [1, 2]) [1, 0], rfl⟩
  have hc : l.InRange [2, 1] := .cons (by decide) (.cons (by decide) .nil)
  obtain ⟨hanswer, -, -, honce, hlist, -, -⟩ := coordinates_enumerate hl
  have hthird : answer 3 = some [1, 1] := (hanswer 3).trans (by decide)
  exact ⟨hl, hthird, (hanswer 6).trans (by decide), (hlist 3).trans hthird, honce _ hc⟩

end Layout
end Emission
