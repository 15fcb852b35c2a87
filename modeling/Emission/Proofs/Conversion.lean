import Emission.Proofs.Datum
import Mathlib.Data.Int.ModEq

/-!
Conversions to integers. Every element counts as a number, and the integer that it becomes is the one of the
kind that is congruent to this number. A kind on the way that is at least as wide changes nothing, because
it keeps the number up to a multiple of its own number of bit patterns.
-/
namespace Emission

/-- Congruent numbers have one pattern. -/
theorem ofInt_congr {w : Nat} {m n : Int} (h : m ≡ n [ZMOD 2 ^ w]) :
    BitVec.ofInt w m = BitVec.ofInt w n := by
  refine BitVec.eq_of_toNat_eq ?_
  rw [BitVec.toNat_ofInt, BitVec.toNat_ofInt]
  push_cast
  rw [h.eq]

namespace IntKind

theorem toInt_ofInt_modEq (k : IntKind) (n : Int) :
    k.toInt (BitVec.ofInt k.width n) ≡ n [ZMOD 2 ^ k.width] := by
  rw [toInt_ofInt]
  exact k.wrap_emod n

/-- A pattern is that of a number exactly if it stands for a congruent one. -/
theorem ofInt_eq_iff (k : IntKind) {n : Int} {x : BitVec k.width} :
    BitVec.ofInt k.width n = x ↔ k.toInt x ≡ n [ZMOD 2 ^ k.width] := by
  constructor
  · rintro rfl
    exact k.toInt_ofInt_modEq n
  · intro h
    rw [← ofInt_congr h, ofInt_toInt]

theorem narrow_eq_ofInt (k : IntKind) (word : BitVec 64) :
    k.narrow word = BitVec.ofInt k.width word.toInt := by
  rw [← k.toInt_inj, toInt_narrow, toInt_ofInt]

end IntKind

namespace Datum

/-- The number that an element counts as: zero or one for a boolean, and what a double is as a signed integer
of 64 bits. -/
def number : Datum → Int
  | boolean b => if b then 1 else 0
  | integer k bits => k.toInt bits
  | double x => (Double.toWord x).toInt

theorem toInt_toWord (d : Datum) : d.toWord.toInt = d.number := by
  cases d with
  | boolean b => cases b <;> rfl
  | integer k x => exact k.toInt_widen x
  | double x => rfl

theorem convert_integer (d : Datum) (k : IntKind) :
    d.convert (.integer k) = .integer k (BitVec.ofInt k.width d.number) := by
  rw [convert, k.narrow_eq_ofInt, toInt_toWord]

theorem convert_eq_iff (d : Datum) (k : IntKind) (x : BitVec k.width) :
    d.convert (.integer k) = .integer k x ↔ k.toInt x ≡ d.number [ZMOD 2 ^ k.width] := by
  rw [convert_integer, ← k.ofInt_eq_iff]
  simp only [integer.injEq, heq_eq_eq, true_and]

/-- What a wider kind keeps of a number is enough for a narrower one. -/
theorem convert_convert {k wide : IntKind} (h : k.width ≤ wide.width) (d : Datum) :
    (d.convert (.integer wide)).convert (.integer k) = d.convert (.integer k) := by
  have hdvd : (2 ^ k.width : Int) ∣ 2 ^ wide.width := pow_dvd_pow 2 h
  have hcongr := (wide.toInt_ofInt_modEq d.number).of_dvd hdvd
  rw [convert_integer, convert_integer, convert_integer, number, ofInt_congr hcongr]

end Datum

end Emission
