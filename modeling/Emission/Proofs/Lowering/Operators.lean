import Emission.Lowering.Operator
import Emission.Proofs.Datum

/-!
What low-level operators compute. An operator on integers is an operation on bit patterns of any width, and
elements are computed with as 64-bit words that are cut off. Both stand for the exact result on numbers,
brought back into the range of the kind, so they agree: a sum, a product or a quotient is wrapped once,
however often it was on the way.
-/
namespace Emission

/-- The exact results on numbers. A quotient is truncated. -/
def Arithmetic.onInts : Arithmetic → Int → Int → Int
  | add, m, n => m + n
  | subtract, m, n => m - n
  | multiply, m, n => m * n
  | divide, m, n => m.tdiv n
  | modulus, m, n => m.tmod n

/-- What an operator on integers does with bit patterns. -/
def Operator.onBits? (w : Nat) : Operator → Option (BitVec w → BitVec w → BitVec w)
  | add => some fun x y => x + y
  | subtract => some fun x y => x - y
  | multiply => some fun x y => x * y
  | divideSigned => some fun x y => x.sdiv y
  | remainderSigned => some fun x y => x.srem y
  | divideUnsigned => some fun x y => x / y
  | remainderUnsigned => some fun x y => x % y
  | addFloat | subtractFloat | multiplyFloat | divideFloat | remainderFloat => none

namespace Operator

variable {w : Nat}

/-- The signed operators compute the exact results on the signed numbers of the patterns, wrapped. -/
theorem onBits?_signed (op : Arithmetic) : ∃ f, (ofClass op .signed).onBits? w = some f ∧
    ∀ x y, (f x y).toInt = (op.onInts x.toInt y.toInt).bmod (2 ^ w) := by
  cases op with
  | add => exact ⟨_, rfl, BitVec.toInt_add⟩
  | subtract => exact ⟨_, rfl, fun _ _ => BitVec.toInt_sub⟩
  | multiply => exact ⟨_, rfl, BitVec.toInt_mul⟩
  | divide => exact ⟨_, rfl, BitVec.toInt_sdiv⟩
  | modulus =>
    refine ⟨_, rfl, fun x y => ?_⟩
    rw [Arithmetic.onInts, ← BitVec.toInt_srem, BitVec.toInt_bmod_cancel]

/-- The unsigned operators compute the exact results on the unsigned numbers of the patterns, wrapped. -/
theorem onBits?_unsigned (op : Arithmetic) : ∃ f, (ofClass op .unsigned).onBits? w = some f ∧
    ∀ x y, ((f x y).toNat : Int) = op.onInts x.toNat y.toNat % 2 ^ w := by
  have hlt : ∀ z : BitVec w, (z.toNat : Int) % 2 ^ w = z.toNat := by
    intro z
    exact Int.emod_eq_of_lt (Int.natCast_nonneg _) (by exact_mod_cast z.isLt)
  cases op with
  | add =>
    refine ⟨_, rfl, fun x y => ?_⟩
    rw [BitVec.toNat_add]
    push_cast
    rfl
  | subtract =>
    refine ⟨_, rfl, fun x y => ?_⟩
    have hy := y.isLt
    have hle : ((2 ^ w - y.toNat + x.toNat : Nat) : Int) = (x.toNat - y.toNat : Int) + 2 ^ w := by
      push_cast [Nat.le_of_lt hy]
      omega
    rw [BitVec.toNat_sub, Int.natCast_emod, hle]
    push_cast
    exact Int.add_emod_right ..
  | multiply =>
    refine ⟨_, rfl, fun x y => ?_⟩
    rw [BitVec.toNat_mul]
    push_cast
    rfl
  | divide =>
    refine ⟨_, rfl, fun x y => ?_⟩
    rw [← hlt, BitVec.toNat_udiv]
    push_cast
    rw [Arithmetic.onInts, Int.tdiv_eq_ediv_of_nonneg (Int.natCast_nonneg _)]
  | modulus =>
    refine ⟨_, rfl, fun x y => ?_⟩
    rw [← hlt, BitVec.toNat_umod]
    push_cast
    rw [Arithmetic.onInts, Int.tmod_eq_emod_of_nonneg (Int.natCast_nonneg _)]

/-- The operator that lowering selects for integers of a kind is one on bit patterns, and gives the pattern
of the exact result wrapped. -/
theorem onBits?_integer (op : Arithmetic) (k : IntKind) :
    ∃ f, (ofOperation op (.plain (.cell (.integer k)))).onBits? k.width = some f ∧
      ∀ x y, k.toInt (f x y) = k.wrap (op.onInts (k.toInt x) (k.toInt y)) := by
  have hclass : OperandClass.ofType (.plain (.cell (.integer k))) =
      if k.isSigned then .signed else .unsigned := rfl
  unfold ofOperation IntKind.toInt IntKind.wrap
  rw [hclass]
  split
  · exact onBits?_signed op
  · exact onBits?_unsigned op

end Operator

/-- A result of 64-bit words is the exact one, wrapped. -/
theorem Arithmetic.toInt_onWords {op : Arithmetic} {x y z : BitVec 64} (h : op.onWords x y = .ok z) :
    z.toInt = (op.onInts x.toInt y.toInt).bmod (2 ^ 64) := by
  have hdivides : ∀ q : BitVec 64, (if y = 0 then Except.error (.invalidArgument .divisionByZero)
      else Except.ok q : Except Failure _) = .ok z → q = z := by
    intro q hq
    split at hq
    · cases hq
    · exact Except.ok.inj hq
  cases op with
  | add =>
    obtain rfl := Except.ok.inj h
    exact BitVec.toInt_add x y
  | subtract =>
    obtain rfl := Except.ok.inj h
    exact BitVec.toInt_sub
  | multiply =>
    obtain rfl := Except.ok.inj h
    exact BitVec.toInt_mul x y
  | divide =>
    obtain rfl := hdivides _ h
    exact BitVec.toInt_sdiv x y
  | modulus =>
    obtain rfl := hdivides _ h
    rw [Arithmetic.onInts, ← BitVec.toInt_srem, BitVec.toInt_bmod_cancel]

namespace Datum

/-- Arithmetic on integers of a kind is what the operator that lowering selects does with their bit patterns,
and fails exactly where an integer is divided by zero. The result is the exact one, wrapped in the kind, and
so the quotient of the least number by minus one is that number again, with the remainder zero. -/
theorem arithmetic_eq_operator (k : IntKind) :
    (∀ op, ∃ f, (Operator.ofOperation op (.plain (.cell (.integer k)))).onBits? k.width = some f ∧
      ∀ x y : BitVec k.width,
        (integer k x).arithmetic op (integer k y) =
          (if op.Divides ∧ y = 0 then .error (.invalidArgument .divisionByZero)
          else .ok (integer k (f x y))) ∧
        k.toInt (f x y) = k.wrap (op.onInts (k.toInt x) (k.toInt y))) ∧
    (k.isSigned = true →
      let least := BitVec.intMin k.width
      (integer k least).arithmetic .divide (integer k (-1)) = .ok (integer k least) ∧
        (integer k least).arithmetic .modulus (integer k (-1)) = .ok (integer k 0)) := by
  constructor
  · intro op
    obtain ⟨f, hf, hexact⟩ := Operator.onBits?_integer op k
    refine ⟨f, hf, fun x y => ⟨?_, hexact x y⟩⟩
    by_cases hzero : op.Divides ∧ y = 0
    · obtain ⟨hop, rfl⟩ := hzero
      rw [if_pos ⟨hop, rfl⟩]
      exact arithmetic_zero hop rfl
    · rw [if_neg hzero]
      have hword : ¬ (op.Divides ∧ k.widen y = 0) := fun h =>
        hzero ⟨h.1, (k.widen_eq_zero_iff y).mp h.2⟩
      obtain ⟨z, hz⟩ := onWords_ok hword (k.widen x)
      have hnarrow : k.narrow z = f x y := by
        apply (k.toInt_inj).mp
        calc k.toInt (k.narrow z)
            = k.wrap z.toInt := k.toInt_narrow z
          _ = k.wrap (op.onInts (k.widen x).toInt (k.widen y).toInt) := by
              rw [Arithmetic.toInt_onWords hz, k.wrap_bmod]
          _ = k.wrap (op.onInts (k.toInt x) (k.toInt y)) := by
              rw [k.toInt_widen, k.toInt_widen]
          _ = k.toInt (f x y) := (hexact x y).symm
      simp only [arithmetic, toWord, hz, ok_bind, pure_eq_ok, kind, ofWord, hnarrow]
  · intro hsigned
    cases k with
    | byte => cases hsigned
    | _ => exact ⟨rfl, rfl⟩

end Datum

end Emission
