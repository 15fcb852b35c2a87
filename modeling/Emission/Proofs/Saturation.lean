import Emission.Proofs.Conversion
import Mathlib.Algebra.Order.Field.Basic
import Mathlib.Data.Rat.Floor

/-!
Doubles as integers. The exact value of a finite double is a rational number, and saturation truncates it toward
zero and holds it between the least and the greatest number of the kind. The word of a double saturates in this
way between the bounds of 64 bits. An integer of another kind is what wrapping leaves of that word, so it is the
saturated one exactly if both are congruent.
-/
namespace Emission

open Float.Model (UnpackedFloat Format)
open Float.Model.UnpackedFloat

namespace IntKind

/-- The least number of the kind. -/
def least (k : IntKind) : Int := k.bound - 2 ^ k.width

/-- The greatest number of the kind. -/
def greatest (k : IntKind) : Int := k.bound - 1

/-- The number of the kind that is nearest. -/
def clamp (k : IntKind) (n : Int) : Int := max k.least (min k.greatest n)

theorem wrap_of_mem {k : IntKind} {n : Int} (hleast : k.least ≤ n) (hgreatest : n ≤ k.greatest) :
    k.wrap n = n := by
  cases k with
  | byte => exact Int.emod_eq_of_lt hleast (Int.lt_add_one_of_le hgreatest)
  | char8 => exact Int.bmod_eq_of_le hleast (Int.lt_add_one_of_le hgreatest)
  | short => exact Int.bmod_eq_of_le hleast (Int.lt_add_one_of_le hgreatest)
  | int32 => exact Int.bmod_eq_of_le hleast (Int.lt_add_one_of_le hgreatest)
  | int64 => exact Int.bmod_eq_of_le hleast (Int.lt_add_one_of_le hgreatest)

/-- The numbers of the kind are all those between the least and the greatest. -/
theorem exists_toInt_iff (k : IntKind) (n : Int) :
    (∃ x, k.toInt x = n) ↔ k.least ≤ n ∧ n ≤ k.greatest := by
  constructor
  · rintro ⟨x, rfl⟩
    have hlt : (x.toNat : Int) < 2 ^ k.width := by exact_mod_cast x.isLt
    have hbound : (k.bound : Int) ≤ 2 ^ k.width := by exact_mod_cast k.bound_le.1
    have hpos := k.bound_le.2
    rw [toInt_eq, least, greatest]
    split <;> omega
  · rintro ⟨hleast, hgreatest⟩
    exact ⟨BitVec.ofInt k.width n, by rw [toInt_ofInt, wrap_of_mem hleast hgreatest]⟩

theorem clamp_of_mem {k : IntKind} {n : Int} (hleast : k.least ≤ n) (hgreatest : n ≤ k.greatest) :
    k.clamp n = n := by
  rw [clamp, min_eq_right hgreatest, max_eq_right hleast]

theorem bounds_within (k : IntKind) : int64.least ≤ k.least ∧ k.least ≤ 0 ∧ 0 ≤ k.greatest ∧
    k.greatest ≤ int64.greatest := by
  cases k <;> decide

theorem clamp_mem (k : IntKind) (n : Int) : k.least ≤ k.clamp n ∧ k.clamp n ≤ k.greatest := by
  have h := k.bounds_within
  unfold clamp
  omega

/-- Clamping to 64 bits first changes nothing. -/
theorem clamp_clamp (k : IntKind) (n : Int) : k.clamp (int64.clamp n) = k.clamp n := by
  have h := k.bounds_within
  unfold clamp
  omega

end IntKind

/-- The integer next to a rational number on the side of zero. -/
def truncated (q : ℚ) : Int := if 0 ≤ q then ⌊q⌋ else ⌈q⌉

/-- A double as an integer of a kind: its exact value truncated toward zero and clamped, the nearer bound
for an infinity, and zero for what is not a number. -/
def IntKind.saturate (k : IntKind) : UnpackedFloat → Int
  | .notANumber => 0
  | .infinity .positive => k.greatest
  | .infinity .negative => k.least
  | .zero _ => 0
  | .finite sign mantissa exponent _ => k.clamp (truncated (sign.apply mantissa * 2 ^ exponent))

theorem IntKind.saturate_eq_clamp (k : IntKind) (u : UnpackedFloat) :
    k.saturate u = k.clamp (IntKind.int64.saturate u) := by
  have h := k.bounds_within
  cases u with
  | notANumber => exact (clamp_of_mem h.2.1 h.2.2.1).symm
  | infinity sign =>
    cases sign with
    | positive =>
      change k.greatest = k.clamp int64.greatest
      unfold clamp
      omega
    | negative =>
      change k.least = k.clamp int64.least
      unfold clamp
      omega
  | zero sign => exact (clamp_of_mem h.2.1 h.2.2.1).symm
  | finite sign mantissa exponent => exact (k.clamp_clamp _).symm

theorem floor_scaled (m e n : Nat) :
    ⌊(m : ℚ) * 2 ^ ((e : ℤ) - n)⌋ = ((m <<< e >>> n : Nat) : ℤ) := by
  have h := Rat.floor_intCast_div_natCast ((m * 2 ^ e : Nat) : ℤ) (2 ^ n)
  rw [zpow_sub₀ two_ne_zero, zpow_natCast, zpow_natCast, ← mul_div_assoc, Nat.shiftRight_eq_div_pow,
    Nat.shiftLeft_eq]
  push_cast at h ⊢
  exact h

theorem truncated_neg {q : ℚ} (hq : 0 ≤ q) : truncated (-q) = -⌊q⌋ := by
  unfold truncated
  split
  · obtain rfl : q = 0 := le_antisymm (neg_nonneg.mp ‹_›) hq
    simp
  · exact Int.ceil_neg

/-- Truncation shifts out what is behind the point, and keeps the sign. -/
theorem truncated_scaled (s : Sign) (m e n : Nat) :
    truncated (s.apply m * 2 ^ ((e : ℤ) - n)) = s.apply (m <<< e >>> n : Nat) := by
  have hpos : (0 : ℚ) ≤ (m : ℚ) * 2 ^ ((e : ℤ) - n) :=
    mul_nonneg (Nat.cast_nonneg m) (zpow_nonneg zero_le_two _)
  cases s with
  | positive =>
    have h := floor_scaled m e n
    simp only [Sign.apply, Int.cast_natCast]
    rw [truncated, if_pos hpos, h]
  | negative =>
    simp only [Sign.apply, Int.cast_neg, Int.cast_natCast, neg_mul]
    rw [truncated_neg hpos, floor_scaled]

namespace Double

def sign (x : Float) : Sign := if isNegative x then .negative else .positive

theorem toNat_unpackExponent (x : Float) :
    (@unpackExponent Format.binary64 x.toBits.toBitVec).toNat = exponentField x := rfl

theorem unpackExponent_eq_iff (x : Float) (w : BitVec 11) :
    @unpackExponent Format.binary64 x.toBits.toBitVec = w ↔ exponentField x = w.toNat := by
  rw [← toNat_unpackExponent, ← BitVec.toNat_inj]

theorem toNat_unpackMantissa (x : Float) :
    (@unpackMantissa Format.binary64 x.toBits.toBitVec).toNat = fractionField x := rfl

theorem unpackMantissa_eq_zero_iff (x : Float) :
    @unpackMantissa Format.binary64 x.toBits.toBitVec = 0#52 ↔ fractionField x = 0 := by
  rw [← toNat_unpackMantissa, ← BitVec.toNat_inj]
  rfl

theorem toNat_append_unpackMantissa (x : Float) :
    (1#1 ++ @unpackMantissa Format.binary64 x.toBits.toBitVec).toNat =
      (1 <<< 52) + fractionField x := by
  rw [BitVec.toNat_append, ← Nat.shiftLeft_add_eq_or_of_lt (BitVec.isLt _), toNat_unpackMantissa]
  rfl

theorem ofBitVec_unpackSign (x : Float) :
    Sign.ofBitVec (@unpackSign Format.binary64 x.toBits.toBitVec) = sign x := by
  have hpositive : @unpackSign Format.binary64 x.toBits.toBitVec = 0#1 ↔ ¬ 1 <<< 63 ≤ x.toBits.toNat := by
    have hnat : (@unpackSign Format.binary64 x.toBits.toBitVec).toNat = x.toBits.toNat >>> 63 % 2 := rfl
    have hlt := x.toBits.toNat_lt
    rw [← BitVec.toNat_inj, hnat, Nat.shiftRight_eq_div_pow]
    change x.toBits.toNat / 2 ^ 63 % 2 = 0 ↔ ¬ 2 ^ 63 ≤ x.toBits.toNat
    omega
  simp only [Sign.ofBitVec, sign, isNegative, hpositive, decide_eq_true_eq, ite_not]

theorem finite_congr {s : Sign} {m m' : Nat} {e e' : Int} (hm : m = m') (he : e = e') {h : 0 < m}
    {h' : 0 < m'} : UnpackedFloat.finite s m e h = .finite s m' e' h' := by
  subst hm he
  rfl

/-- The three fields of a double decide what it stands for. -/
theorem unpack_eq (x : Float) : x.toModel.unpack =
    if exponentField x = 2047 then
      if fractionField x = 0 then .infinity (sign x) else .notANumber
    else if h : significand x = 0 then .zero (sign x)
    else .finite (sign x) (significand x) ((max (exponentField x) 1 : Nat) - 1075)
      (Nat.pos_of_ne_zero h) := by
  change UnpackedFloat.unpack Format.binary64 x.toBits.toBitVec = _
  have hexponent := toNat_unpackExponent x
  have hall : @unpackExponent Format.binary64 x.toBits.toBitVec = -1#_ ↔ exponentField x = 2047 :=
    unpackExponent_eq_iff x (-1#11)
  have hnone : @unpackExponent Format.binary64 x.toBits.toBitVec = 0#_ ↔ exponentField x = 0 :=
    unpackExponent_eq_iff x 0#11
  have hzero := unpackMantissa_eq_zero_iff x
  unfold UnpackedFloat.unpack
  dsimp only
  rw [ofBitVec_unpackSign]
  by_cases hspecial : exponentField x = 2047
  · rw [if_pos (hall.mpr hspecial), if_pos hspecial]
    exact if_congr hzero rfl rfl
  rw [if_neg (mt hall.mp hspecial), if_neg hspecial]
  -- without the leading bit the scale is that of the least exponent that has it
  by_cases hsubnormal : exponentField x = 0
  · have hsignificand : significand x = fractionField x := if_pos hsubnormal
    rw [if_pos (hnone.mpr hsubnormal)]
    by_cases hfraction : fractionField x = 0
    · rw [dif_pos (hzero.mpr hfraction), dif_pos (hsignificand.trans hfraction)]
    · rw [dif_neg (mt hzero.mp hfraction), dif_neg (hsignificand ▸ hfraction)]
      refine finite_congr ((toNat_unpackMantissa x).trans hsignificand.symm) ?_
      rw [hexponent, hsubnormal]
      rfl
  · have hsignificand : significand x = (1 <<< 52) + fractionField x := if_neg hsubnormal
    have hpos : significand x ≠ 0 := by
      rw [hsignificand]
      exact Nat.ne_of_gt (Nat.add_pos_left (by decide) _)
    rw [if_neg (mt hnone.mp hsubnormal), dif_neg hpos]
    refine finite_congr ((toNat_append_unpackMantissa x).trans hsignificand.symm) ?_
    rw [hexponent, max_eq_left (Nat.one_le_iff_ne_zero.mpr hsubnormal)]
    rfl

theorem truncate_eq (x : Float) : truncate x = (sign x).apply (units x >>> 1075 : Nat) := by
  unfold truncate sign
  cases isNegative x <;> rfl

/-- Beyond the range of doubles is beyond that of words. -/
theorem clamp_truncate_infinite {x : Float} (hexponent : exponentField x = 2047)
    (hfraction : fractionField x = 0) :
    IntKind.int64.clamp (truncate x) = IntKind.int64.saturate (.infinity (sign x)) := by
  have hunits : units x = (1 <<< 52) <<< 2047 := by
    rw [units, significand, hexponent, hfraction]
    rfl
  rw [truncate_eq, hunits]
  cases sign x <;> decide +kernel

theorem clamp_truncate {x : Float} (h : x.toModel.unpack ≠ .notANumber) :
    IntKind.int64.clamp (truncate x) = IntKind.int64.saturate x.toModel.unpack := by
  rw [unpack_eq] at h ⊢
  by_cases hspecial : exponentField x = 2047
  · rw [if_pos hspecial] at h ⊢
    by_cases hfraction : fractionField x = 0
    · rw [if_pos hfraction]
      exact clamp_truncate_infinite hspecial hfraction
    · rw [if_neg hfraction] at h
      exact absurd rfl h
  rw [if_neg hspecial]
  by_cases hzero : significand x = 0
  · have hnone : truncate x = 0 := by
      rw [truncate_eq, units, hzero, Nat.zero_shiftLeft, Nat.zero_shiftRight]
      cases sign x <;> rfl
    rw [dif_pos hzero, hnone]
    change IntKind.int64.clamp 0 = 0
    decide
  · have hscaled := truncated_scaled (sign x) (significand x) (max (exponentField x) 1) 1075
    rw [dif_neg hzero, truncate_eq, units, ← hscaled]
    rfl

theorem isNaN_iff (x : Float) : x.isNaN = true ↔ x.toModel.unpack = .notANumber := by
  change x.toModel.unpack.isNaN = true ↔ _
  cases x.toModel.unpack with
  | notANumber => exact iff_of_true rfl rfl
  | infinity s => exact iff_of_false nofun nofun
  | zero s => exact iff_of_false nofun nofun
  | finite s m e h => exact iff_of_false nofun nofun

/-- The word of a double saturates in 64 bits. -/
theorem toInt_toWord (x : Float) :
    (toWord x).toInt = IntKind.int64.saturate x.toModel.unpack := by
  by_cases hnan : x.toModel.unpack = .notANumber
  · rw [toWord, if_pos ((isNaN_iff x).mpr hnan), hnan]
    rfl
  · have hclamp : max (-maximum - 1) (min maximum (truncate x)) =
        IntKind.int64.clamp (truncate x) := rfl
    have hint : ∀ n, (BitVec.ofInt 64 n).toInt = IntKind.int64.wrap n := IntKind.int64.toInt_ofInt
    obtain ⟨hleast, hgreatest⟩ := IntKind.int64.clamp_mem (truncate x)
    rw [toWord, if_neg (mt (isNaN_iff x).mp hnan), hclamp, hint,
      IntKind.wrap_of_mem hleast hgreatest, clamp_truncate hnan]

end Double

/-- Wrapping what is saturated in 64 bits saturates in the kind exactly if both are congruent. -/
theorem IntKind.wrap_saturate_iff (k : IntKind) (u : UnpackedFloat) :
    k.wrap (int64.saturate u) = k.saturate u ↔
      int64.saturate u ≡ k.saturate u [ZMOD 2 ^ k.width] := by
  have hclamp := k.saturate_eq_clamp u
  obtain ⟨hleast, hgreatest⟩ := k.clamp_mem (int64.saturate u)
  constructor
  · intro h
    rw [← h]
    exact (k.wrap_emod _).symm
  · intro h
    rw [← k.toInt_ofInt, ofInt_congr h, k.toInt_ofInt, hclamp, wrap_of_mem hleast hgreatest]

theorem IntKind.wrap_saturate_of_mem {k : IntKind} {u : UnpackedFloat}
    (hleast : k.least ≤ int64.saturate u) (hgreatest : int64.saturate u ≤ k.greatest) :
    k.wrap (int64.saturate u) = k.saturate u := by
  rw [k.saturate_eq_clamp, clamp_of_mem hleast hgreatest, wrap_of_mem hleast hgreatest]

namespace Datum

theorem convert_double (x : Float) (k : IntKind) : (double x).convert (.integer k) =
    .integer k (BitVec.ofInt k.width (IntKind.int64.saturate x.toModel.unpack)) := by
  rw [convert_integer, number, Double.toInt_toWord]

/-- Three hundred becomes a byte as a word does, and so it is not the greatest byte. -/
theorem convert_double_wraps :
    (double 300.0).convert (.integer .byte) = .integer .byte 44 ∧
      IntKind.byte.saturate (300.0 : Float).toModel.unpack = 255 ∧
      ¬ ∀ (x : Float) (k : IntKind), ∃ y : BitVec k.width,
        (double x).convert (.integer k) = .integer k y ∧ k.toInt y = k.saturate x.toModel.unpack := by
  have hconvert : (double 300.0).convert (.integer .byte) = .integer .byte 44 := by decide +kernel
  have hsaturate : IntKind.byte.saturate (300.0 : Float).toModel.unpack = 255 := by decide +kernel
  refine ⟨hconvert, hsaturate, fun h => ?_⟩
  obtain ⟨y, hy, hint⟩ := h 300.0 .byte
  obtain rfl : 44 = y := by simpa using hconvert.symm.trans hy
  rw [hsaturate] at hint
  exact absurd hint (by decide)

end Datum

end Emission
