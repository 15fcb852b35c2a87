import Emission.Datum.Arithmetic
import Emission.Proofs.Outcome
import Mathlib.Algebra.Group.Int.Defs
import Mathlib.Algebra.GroupWithZero.Nat

/-!
Arithmetic on elements of one kind. It gives an element of that kind, and only an integral division
by zero fails. Sums and products of integers are those of their bit patterns, which stand for the
numbers below the bound of the kind and for negative ones.
-/
namespace Emission

/-- The operations that have no result when the right operand is an integral zero. -/
def Arithmetic.Divides (op : Arithmetic) : Prop := op = .divide ∨ op = .modulus

instance (op : Arithmetic) : Decidable op.Divides := by
  unfold Arithmetic.Divides
  infer_instance

namespace IntKind

theorem widen_eq_zero_iff (k : IntKind) (x : BitVec k.width) : k.widen x = 0 ↔ x = 0 := by
  constructor
  · intro h
    have hnarrow := congrArg k.narrow h
    rw [k.narrow_widen] at hnarrow
    rw [hnarrow]
    simp [narrow]
  · rintro rfl
    unfold widen
    split
    · exact BitVec.eq_of_toInt_eq (by rw [BitVec.toInt_signExtend_of_le k.width_le]; simp)
    · simp

theorem narrow_add (k : IntKind) (x y : BitVec k.width) :
    k.narrow (k.widen x + k.widen y) = x + y := by
  have h := BitVec.setWidth_add (k.widen x) (k.widen y) k.width_le
  rw [narrow, h]
  exact congr (congrArg _ (k.narrow_widen x)) (k.narrow_widen y)

theorem narrow_mul (k : IntKind) (x y : BitVec k.width) :
    k.narrow (k.widen x * k.widen y) = x * y := by
  have h := BitVec.setWidth_mul (k.widen x) (k.widen y) k.width_le
  rw [narrow, h]
  exact congr (congrArg _ (k.narrow_widen x)) (k.narrow_widen y)

theorem toInt_widen (k : IntKind) (x : BitVec k.width) : (k.widen x).toInt = k.toInt x := by
  unfold widen toInt
  split
  · exact BitVec.toInt_signExtend_of_le k.width_le
  case isFalse h =>
    have hlt := x.isLt
    cases k with
    | byte =>
      have h8 : x.toNat < 2 ^ 8 := hlt
      rw [BitVec.toInt_eq_toNat_of_lt] <;> rw [BitVec.toNat_setWidth_of_le (by decide)]
      omega
    | _ => exact absurd rfl h

/-- The number of the kind that is congruent to the given one, counting up to the number of bit patterns. -/
def wrap (k : IntKind) (n : Int) : Int :=
  if k.isSigned then n.bmod (2 ^ k.width) else n % 2 ^ k.width

theorem toInt_inj (k : IntKind) {x y : BitVec k.width} : k.toInt x = k.toInt y ↔ x = y := by
  unfold toInt
  split
  · exact BitVec.toInt_inj
  · rw [Int.natCast_inj, BitVec.toNat_inj]

/-- Wrapping in 64 bits on the way changes nothing. -/
theorem wrap_bmod (k : IntKind) (n : Int) : k.wrap (n.bmod (2 ^ 64)) = k.wrap n := by
  have hdvd : 2 ^ k.width ∣ 2 ^ 64 := Nat.pow_dvd_pow 2 k.width_le
  unfold wrap
  split
  · exact Int.bmod_bmod_of_dvd hdvd
  · have hdvd' : (2 ^ k.width : Int) ∣ (2 ^ 64 : Nat) := by exact_mod_cast hdvd
    rw [← Int.emod_emod_of_dvd _ hdvd', Int.bmod_emod, Int.emod_emod_of_dvd _ hdvd']

/-- What is cut off from a word is a multiple of the number of bit patterns. -/
theorem toInt_narrow (k : IntKind) (word : BitVec 64) :
    k.toInt (k.narrow word) = k.wrap word.toInt := by
  rw [BitVec.toInt_eq_toNat_bmod, wrap_bmod]
  unfold toInt wrap narrow
  split
  · exact BitVec.toInt_setWidth word
  · rw [BitVec.toNat_setWidth]
    push_cast
    rfl

theorem bound_le (k : IntKind) : k.bound ≤ 2 ^ k.width ∧ 0 < k.bound := by
  cases k <;> decide

/-- The patterns below the bound stand for themselves, the others for negative numbers. -/
theorem toInt_eq (k : IntKind) (x : BitVec k.width) :
    k.toInt x = if x.toNat < k.bound then (x.toNat : Int) else (x.toNat : Int) - 2 ^ k.width := by
  by_cases hsigned : k.isSigned = true
  · have hbound : 2 * k.bound = 2 ^ k.width := by cases k <;> first | rfl | cases hsigned
    rw [toInt, if_pos hsigned, BitVec.toInt_eq_toNat_cond]
    by_cases h : x.toNat < k.bound
    · rw [if_pos h, if_pos (by omega)]
    · rw [if_neg h, if_neg (by omega)]
      push_cast
      rfl
  · have hbound : k.bound = 2 ^ k.width := by rw [bound, if_neg hsigned, Nat.one_shiftLeft]
    rw [toInt, if_neg hsigned, if_pos (hbound ▸ x.isLt)]

/-- A pattern is that of the number it stands for. -/
theorem ofInt_toInt (k : IntKind) (x : BitVec k.width) : BitVec.ofInt k.width (k.toInt x) = x := by
  unfold toInt
  split
  · exact BitVec.ofInt_toInt
  · rw [BitVec.ofInt_natCast, BitVec.ofNat_toNat, BitVec.setWidth_eq]

/-- A number below the bound has a pattern. -/
theorem toInt_ofNat (k : IntKind) {n : Nat} (hn : n < k.bound) :
    k.toInt (BitVec.ofNat k.width n) = n := by
  have hnat : (BitVec.ofNat k.width n).toNat = n :=
    Nat.mod_eq_of_lt (Nat.lt_of_lt_of_le hn k.bound_le.1)
  rw [toInt_eq, hnat, if_pos hn]

/-- The pattern of a number stands for the congruent number of the kind. -/
theorem toInt_ofInt (k : IntKind) (n : Int) : k.toInt (BitVec.ofInt k.width n) = k.wrap n := by
  unfold toInt wrap
  split
  · exact BitVec.toInt_ofInt n
  · have hpos : ((2 ^ k.width : Nat) : Int) ≠ 0 := by
      exact_mod_cast Nat.ne_of_gt (Nat.two_pow_pos k.width)
    rw [BitVec.toNat_ofInt, Int.toNat_of_nonneg (Int.emod_nonneg n hpos)]
    push_cast
    rfl

theorem wrap_emod (k : IntKind) (n : Int) : k.wrap n % 2 ^ k.width = n % 2 ^ k.width := by
  unfold wrap
  split
  · exact_mod_cast Int.bmod_emod
  · exact Int.emod_emod_of_dvd n (Int.dvd_refl _)

end IntKind

namespace Datum

instance : Nonempty Datum := ⟨boolean false⟩

theorem exists_integer {d : Datum} {k : IntKind} (h : d.kind = .integer k) :
    ∃ x, d = .integer k x := by
  cases d with
  | boolean b => cases h
  | double x => cases h
  | integer k' x =>
    obtain rfl : k' = k := by simpa [kind] using h
    exact ⟨x, rfl⟩

theorem exists_double {d : Datum} (h : d.kind = .double) : ∃ x, d = .double x := by
  cases d with
  | boolean b => cases h
  | integer k x => cases h
  | double x => exact ⟨x, rfl⟩

theorem onWords_of_zero {op : Arithmetic} (hop : op.Divides) (x : BitVec 64) :
    op.onWords x 0 = .error (.invalidArgument .divisionByZero) := by
  rcases hop with rfl | rfl <;> rfl

theorem onWords_ok {op : Arithmetic} {y : BitVec 64} (h : ¬ (op.Divides ∧ y = 0))
    (x : BitVec 64) : ∃ z, op.onWords x y = .ok z := by
  by_cases hy : y = 0
  · have hop : ¬ op.Divides := fun hop => h ⟨hop, hy⟩
    cases op with
    | divide => exact absurd (Or.inl rfl) hop
    | modulus => exact absurd (Or.inr rfl) hop
    | _ => exact ⟨_, rfl⟩
  · have hif : ∀ z : BitVec 64, (if y = 0 then Except.error (.invalidArgument .divisionByZero)
        else Except.ok z : Except Failure _) = .ok z := fun z => by rw [if_neg hy]
    cases op with
    | divide => exact ⟨_, hif _⟩
    | modulus => exact ⟨_, hif _⟩
    | _ => exact ⟨_, rfl⟩

/-- An integer cannot be divided by an integral zero. -/
theorem arithmetic_zero {op : Arithmetic} (hop : op.Divides) {a : Datum} {k : IntKind}
    (ha : a.kind = .integer k) :
    a.arithmetic op (.integer k 0) = .error (.invalidArgument .divisionByZero) := by
  obtain ⟨x, rfl⟩ := exists_integer ha
  have hzero : toWord (.integer k 0) = 0 := (k.widen_eq_zero_iff 0).mpr rfl
  simp only [arithmetic, hzero, onWords_of_zero hop, error_bind]

/-- Other elements of one numeric kind have a result, of that kind. -/
theorem arithmetic_ok {op : Arithmetic} {a b : Datum} {k : Kind} (hk : k ≠ .boolean)
    (ha : a.kind = k) (hb : b.kind = k) (h : ¬ (op.Divides ∧ ∃ i, b = .integer i 0)) :
    ∃ d, a.arithmetic op b = .ok d ∧ d.kind = k := by
  cases k with
  | boolean => exact absurd rfl hk
  | double =>
    obtain ⟨x, rfl⟩ := exists_double ha
    obtain ⟨y, rfl⟩ := exists_double hb
    exact ⟨_, rfl, rfl⟩
  | integer i =>
    obtain ⟨x, rfl⟩ := exists_integer ha
    obtain ⟨y, rfl⟩ := exists_integer hb
    have hword : ¬ (op.Divides ∧ toWord (.integer i y) = 0) := by
      rintro ⟨hop, hy⟩
      obtain rfl := (i.widen_eq_zero_iff y).mp hy
      exact h ⟨hop, i, rfl⟩
    obtain ⟨z, hz⟩ := onWords_ok hword (toWord (.integer i x))
    refine ⟨ofWord z (.integer i), ?_, kind_ofWord z _⟩
    simp only [arithmetic, hz, ok_bind, pure_eq_ok]
    rfl

/-- Dividing by zero is the only way in which elements of one numeric kind have no result. -/
theorem arithmetic_total (op : Arithmetic) {a b : Datum} {k : Kind} (hk : k ≠ .boolean)
    (ha : a.kind = k) (hb : b.kind = k) :
    a.arithmetic op b = .error (.invalidArgument .divisionByZero) ∨
      ∃ d, a.arithmetic op b = .ok d := by
  by_cases h : op.Divides ∧ ∃ i, b = .integer i 0
  · obtain ⟨hop, i, rfl⟩ := h
    exact Or.inl (arithmetic_zero hop (ha.trans hb.symm))
  · obtain ⟨d, hd, -⟩ := arithmetic_ok hk ha hb h
    exact Or.inr ⟨d, hd⟩

theorem arithmetic_add (k : IntKind) (x y : BitVec k.width) :
    (integer k x).arithmetic .add (integer k y) = .ok (integer k (x + y)) := by
  have h := k.narrow_add x y
  simp only [arithmetic, Arithmetic.onWords, toWord, ok_bind, pure_eq_ok, kind, ofWord, h]

theorem arithmetic_multiply (k : IntKind) (x y : BitVec k.width) :
    (integer k x).arithmetic .multiply (integer k y) = .ok (integer k (x * y)) := by
  have h := k.narrow_mul x y
  simp only [arithmetic, Arithmetic.onWords, toWord, ok_bind, pure_eq_ok, kind, ofWord, h]

theorem kind_applyUnary (f : Intrinsic) (d : Datum) : (d.applyUnary f).kind = d.kind := by
  unfold applyUnary
  split
  · rfl
  · exact kind_ofWord _ _

theorem kind_max (a b : Datum) : (a.max b).kind = a.kind := by
  unfold max
  split
  · rfl
  · exact kind_ofWord _ _

theorem kind_min (a b : Datum) : (a.min b).kind = a.kind := by
  unfold min
  split
  · rfl
  · exact kind_ofWord _ _

/-- Of two integers of one kind the larger one is kept as it is: it narrows back from the word in which it was
compared. -/
theorem max_integer (k : IntKind) (x y : BitVec k.width) : (integer k x).max (integer k y) =
    integer k (if k.toInt x < k.toInt y then y else x) := by
  rw [← k.toInt_widen x, ← k.toInt_widen y]
  show integer k (k.narrow (if (k.widen x).toInt < (k.widen y).toInt then k.widen y else k.widen x)) = _
  split
  · rw [k.narrow_widen]
  · rw [k.narrow_widen]

theorem min_integer (k : IntKind) (x y : BitVec k.width) : (integer k x).min (integer k y) =
    integer k (if k.toInt y < k.toInt x then y else x) := by
  rw [← k.toInt_widen x, ← k.toInt_widen y]
  show integer k (k.narrow (if (k.widen y).toInt < (k.widen x).toInt then k.widen y else k.widen x)) = _
  split
  · rw [k.narrow_widen]
  · rw [k.narrow_widen]

/-- A pattern names a position when it stands for a number that is not negative. -/
theorem toIndex_integer (k : IntKind) (x : BitVec k.width) :
    (x.toNat < k.bound → (integer k x).toIndex = .ok x.toNat) ∧
      (¬ x.toNat < k.bound → ∃ e, (integer k x).toIndex = .error e) := by
  have hlt : (x.toNat : Int) < 2 ^ k.width := by exact_mod_cast x.isLt
  have hint : (integer k x).toWord.toInt = k.toInt x := k.toInt_widen x
  rw [IntKind.toInt_eq] at hint
  unfold toIndex
  constructor
  · intro h
    rw [if_pos h] at hint
    have hnat : (integer k x).toWord.toNat = x.toNat := by
      have hmod := BitVec.toInt_eq_toNat_cond (integer k x).toWord
      have hword := (integer k x).toWord.isLt
      split at hmod <;> omega
    rw [hint, if_neg (by omega), hnat]
  · intro h
    rw [if_neg h] at hint
    rw [if_pos (by omega)]
    exact ⟨_, rfl⟩

end Datum

end Emission
