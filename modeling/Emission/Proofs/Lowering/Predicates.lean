import Emission.Lowering.Relation
import Emission.Proofs.Datum

/-!
What low-level predicates decide. A predicate on integers compares bit patterns of any width, as unsigned or
as signed numbers, and a predicate on doubles compares them in the partial order in which what is not a number
stands beside all others. Elements are compared as the numbers that they stand for, so the predicates that
lowering selects decide as the comparison of elements does.
-/
namespace Emission

def IntPredicate.holds {w : Nat} : IntPredicate → BitVec w → BitVec w → Bool
  | eq, x, y => x == y
  | ne, x, y => x != y
  | ugt, x, y => y.ult x
  | uge, x, y => y.ule x
  | ult, x, y => x.ult y
  | ule, x, y => x.ule y
  | sgt, x, y => y.slt x
  | sge, x, y => y.sle x
  | slt, x, y => x.slt y
  | sle, x, y => x.sle y

/-- All but the last are ordered, and fail where a side is not a number. -/
def FloatPredicate.holds : FloatPredicate → Float → Float → Bool
  | oeq, x, y => x == y
  | ogt, x, y => y < x
  | oge, x, y => y ≤ x
  | olt, x, y => x < y
  | ole, x, y => x ≤ y
  | une, x, y => x != y

namespace Comparison

/-- What a comparison says about two numbers. -/
def Relates : Comparison → Int → Int → Prop
  | equality, m, n => m = n
  | inequality, m, n => m ≠ n
  | lessThan, m, n => m < n
  | lessThanOrEqual, m, n => m ≤ n
  | greaterThan, m, n => n < m
  | greaterThanOrEqual, m, n => n ≤ m

theorem holds_compare_iff (op : Comparison) (m n : Int) :
    op.holds (some (compare m n)) = true ↔ op.Relates m n := by
  cases op with
  | equality => exact Ordering.isEq_iff_eq_eq.trans Std.compare_eq_iff_eq
  | inequality => exact Ordering.isNe_iff_ne_eq.trans (not_congr Std.compare_eq_iff_eq)
  | lessThan => exact Ordering.isLT_iff_eq_lt.trans Std.compare_eq_lt
  | lessThanOrEqual => exact Std.isLE_compare
  | greaterThan => exact Ordering.isGT_iff_eq_gt.trans Std.compare_eq_gt
  | greaterThanOrEqual => exact Std.isGE_compare

end Comparison

namespace Relation

variable {w : Nat}

theorem intPredicate?_signed (op : Comparison) : ∃ p, (ofClass op .signed).intPredicate? = some p ∧
    ∀ x y : BitVec w, p.holds x y = true ↔ op.Relates x.toInt y.toInt := by
  cases op with
  | equality => exact ⟨_, rfl, fun x y => beq_iff_eq.trans BitVec.toInt_inj.symm⟩
  | inequality => exact ⟨_, rfl, fun x y => bne_iff_ne.trans (not_congr BitVec.toInt_inj.symm)⟩
  | lessThan => exact ⟨_, rfl, fun x y => BitVec.slt_iff_toInt_lt⟩
  | lessThanOrEqual => exact ⟨_, rfl, fun x y => BitVec.sle_iff_toInt_le⟩
  | greaterThan => exact ⟨_, rfl, fun x y => BitVec.slt_iff_toInt_lt⟩
  | greaterThanOrEqual => exact ⟨_, rfl, fun x y => BitVec.sle_iff_toInt_le⟩

theorem intPredicate?_unsigned (op : Comparison) : ∃ p, (ofClass op .unsigned).intPredicate? = some p ∧
    ∀ x y : BitVec w, p.holds x y = true ↔ op.Relates x.toNat y.toNat := by
  have hult : ∀ x y : BitVec w, x.ult y = true ↔ (x.toNat : Int) < y.toNat := by
    intro x y
    rw [BitVec.ult_eq_decide, decide_eq_true_iff, Int.ofNat_lt]
  have hule : ∀ x y : BitVec w, x.ule y = true ↔ (x.toNat : Int) ≤ y.toNat := by
    intro x y
    rw [BitVec.ule_eq_decide, decide_eq_true_iff, Int.ofNat_le]
  have hinj : ∀ x y : BitVec w, x = y ↔ (x.toNat : Int) = y.toNat := by
    intro x y
    rw [Int.natCast_inj, BitVec.toNat_inj]
  cases op with
  | equality => exact ⟨_, rfl, fun x y => beq_iff_eq.trans (hinj x y)⟩
  | inequality => exact ⟨_, rfl, fun x y => bne_iff_ne.trans (not_congr (hinj x y))⟩
  | lessThan => exact ⟨_, rfl, hult⟩
  | lessThanOrEqual => exact ⟨_, rfl, hule⟩
  | greaterThan => exact ⟨_, rfl, fun x y => hult y x⟩
  | greaterThanOrEqual => exact ⟨_, rfl, fun x y => hule y x⟩

end Relation

namespace Double

open Float.Model (UnpackedFloat)

/-- Turned around, the two floats compare the other way, or still not at all. -/
theorem compare_swap (a b : UnpackedFloat) : b.compare a = (a.compare b).map Ordering.swap := by
  have hnumbers : ∀ (e e' : Int) (m m' : Nat), (compare e' e).then (compare m' m) =
      ((compare e e').then (compare m m')).swap := by
    intro e e' m m'
    rw [Ordering.swap_then, ← Std.OrientedCmp.eq_swap, ← Std.OrientedCmp.eq_swap]
  cases a with
  | notANumber => cases b <;> rfl
  | infinity s =>
    cases b with
    | infinity s' => cases s <;> cases s' <;> rfl
    | _ => cases s <;> rfl
  | zero s =>
    cases b with
    | infinity s' | finite s' => cases s' <;> rfl
    | _ => rfl
  | finite s m e _ =>
    cases b with
    | infinity s' => cases s <;> cases s' <;> rfl
    | finite s' m' e' _ =>
      cases s <;> cases s'
      · exact congrArg some (congrArg Ordering.swap (hnumbers e e' m m'))
      · rfl
      · rfl
      · exact congrArg some (hnumbers e e' m m')
    | _ => cases s <;> rfl

variable {x y : Float}

theorem lt_iff : x < y ↔ x.toModel.compare y.toModel = some .lt := by
  show decide (x.toModel < y.toModel) = true ↔ _
  rw [decide_eq_true_iff]
  exact beq_iff_eq

theorem beq_iff : (x == y) = true ↔ x.toModel.compare y.toModel = some .eq := by
  show (x.toModel.compare y.toModel == some .eq) = true ↔ _
  exact beq_iff_eq

theorem le_iff : x ≤ y ↔ (x.toModel.compare y.toModel).any Ordering.isLE = true := by
  show decide (x.toModel ≤ y.toModel) = true ↔ _
  rw [decide_eq_true_iff]
  rfl

theorem order?_eq_compare : order? x y = x.toModel.compare y.toModel := by
  have hswap : y.toModel.compare x.toModel = (x.toModel.compare y.toModel).map Ordering.swap :=
    compare_swap _ _
  unfold order?
  simp only [lt_iff, beq_iff, hswap]
  rcases x.toModel.compare y.toModel with _ | _ | _ | _ <;> rfl

theorem isNone_compare (a b : UnpackedFloat) : (a.compare b).isNone = (a.isNaN || b.isNaN) := by
  cases a with
  | notANumber => cases b <;> rfl
  | infinity s => cases s <;> cases b <;> rfl
  | zero s =>
    cases b with
    | infinity s' | finite s' => cases s' <;> rfl
    | _ => rfl
  | finite s =>
    cases b with
    | infinity s' | finite s' => cases s <;> cases s' <;> rfl
    | _ => cases s <;> rfl

/-- A double is unordered beside what is not a number, and beside nothing else. -/
theorem order?_eq_none_iff : order? x y = none ↔ x.isNaN = true ∨ y.isNaN = true := by
  have hnone : (order? x y).isNone = (x.isNaN || y.isNaN) := by
    rw [order?_eq_compare]
    exact isNone_compare _ _
  rw [← Option.isNone_iff_eq_none, hnone, Bool.or_eq_true]

theorem order?_symm : order? y x = (order? x y).map Ordering.swap := by
  rw [order?_eq_compare, order?_eq_compare]
  exact compare_swap _ _

theorem decide_lt : decide (x < y) = (order? x y == some .lt) := by
  rw [order?_eq_compare, Bool.eq_iff_iff, decide_eq_true_iff, lt_iff, beq_iff_eq]

theorem beq_eq : (x == y) = (order? x y == some .eq) := by
  rw [order?_eq_compare, Bool.eq_iff_iff, beq_iff, beq_iff_eq]

theorem decide_le : decide (x ≤ y) = (order? x y).any Ordering.isLE := by
  rw [order?_eq_compare, Bool.eq_iff_iff, decide_eq_true_iff, le_iff]

end Double

namespace FloatPredicate

/-- The orders of two doubles of which a predicate holds. -/
def admits : FloatPredicate → Option Ordering → Bool
  | oeq, order? => order? == some .eq
  | ogt, order? => order? == some .gt
  | oge, order? => order?.any Ordering.isGE
  | olt, order? => order? == some .lt
  | ole, order? => order?.any Ordering.isLE
  | une, order? => order? != some .eq

theorem holds_eq_admits (p : FloatPredicate) (x y : Float) :
    p.holds x y = p.admits (Double.order? x y) := by
  cases p with
  | oeq => exact Double.beq_eq
  | ogt =>
    rw [holds, Double.decide_lt, Double.order?_symm]
    rcases Double.order? x y with _ | _ | _ | _ <;> rfl
  | oge =>
    rw [holds, Double.decide_le, Double.order?_symm]
    rcases Double.order? x y with _ | _ | _ | _ <;> rfl
  | olt => exact Double.decide_lt
  | ole => exact Double.decide_le
  | une =>
    rw [holds, bne, Double.beq_eq]
    rfl

theorem admits_none (p : FloatPredicate) : p.admits none = decide (p = une) := by
  cases p <;> rfl

end FloatPredicate

namespace Relation

/-- The integer predicates of a kind compare the numbers that the patterns stand for. -/
theorem intPredicate?_integer (op : Comparison) (k : IntKind) :
    ∃ p, (ofOperation op (.plain (.cell (.integer k)))).intPredicate? = some p ∧
      ∀ x y, p.holds x y = true ↔ op.Relates (k.toInt x) (k.toInt y) := by
  have hclass : OperandClass.ofType (.plain (.cell (.integer k))) =
      if k.isSigned then .signed else .unsigned := rfl
  unfold ofOperation IntKind.toInt
  rw [hclass]
  split
  · exact intPredicate?_signed op
  · exact intPredicate?_unsigned op

/-- Lowering selects the predicate on doubles that admits the orders of which the comparison holds. -/
theorem floatPredicate?_float (op : Comparison) : ∃ p, (ofClass op .float).floatPredicate? = some p ∧
    ∀ order?, p.admits order? = op.holds order? := by
  have hadmits : ∀ p : FloatPredicate, p.admits none = op.holds none →
      (∀ o, p.admits (some o) = op.holds (some o)) → ∀ order?, p.admits order? = op.holds order? := by
    rintro p hnone hsome (_ | o)
    · exact hnone
    · exact hsome o
  cases op with
  | equality => exact ⟨_, rfl, hadmits _ rfl (by decide)⟩
  | inequality => exact ⟨_, rfl, hadmits _ rfl (by decide)⟩
  | lessThan => exact ⟨_, rfl, hadmits _ rfl (by decide)⟩
  | lessThanOrEqual => exact ⟨_, rfl, hadmits _ rfl (by decide)⟩
  | greaterThan => exact ⟨_, rfl, hadmits _ rfl (by decide)⟩
  | greaterThanOrEqual => exact ⟨_, rfl, hadmits _ rfl (by decide)⟩

end Relation

namespace Datum

/-- Elements are compared as the predicate that lowering selects compares them: booleans as patterns of one
bit, integers as patterns of their width, and doubles in their partial order. Where a side is not a number,
no predicate holds but that of inequality. -/
theorem compare_eq_predicate (op : Comparison) :
    (∃ p, (Relation.ofOperation op (.plain .boolean)).intPredicate? = some p ∧
      ∀ b c, (boolean b).compare op (boolean c) = p.holds (BitVec.ofBool b) (BitVec.ofBool c)) ∧
    (∀ k, ∃ p, (Relation.ofOperation op (.plain (.cell (.integer k)))).intPredicate? = some p ∧
      ∀ x y, (integer k x).compare op (integer k y) = p.holds x y) ∧
    ∃ p, (Relation.ofOperation op (.plain .double)).floatPredicate? = some p ∧
      ∀ x y, (double x).compare op (double y) = p.holds x y ∧
        (x.isNaN = true ∨ y.isNaN = true → p.holds x y = decide (p = .une)) := by
  refine ⟨?_, fun k => ?_, ?_⟩
  · obtain ⟨p, hp, hholds⟩ := Relation.intPredicate?_unsigned (w := 1) op
    refine ⟨p, hp, fun b c => Bool.eq_iff_iff.mpr ?_⟩
    have hnumber : ∀ b, (boolean b).toWord.toInt = (BitVec.ofBool b).toNat := by
      intro b
      cases b <;> rfl
    rw [hholds, ← hnumber, ← hnumber]
    exact op.holds_compare_iff _ _
  · obtain ⟨p, hp, hholds⟩ := Relation.intPredicate?_integer op k
    refine ⟨p, hp, fun x y => Bool.eq_iff_iff.mpr ?_⟩
    rw [hholds, ← k.toInt_widen, ← k.toInt_widen]
    exact op.holds_compare_iff _ _
  · obtain ⟨p, hp, hadmits⟩ := Relation.floatPredicate?_float op
    refine ⟨p, hp, fun x y => ⟨?_, fun h => ?_⟩⟩
    · rw [p.holds_eq_admits, hadmits]
      rfl
    · rw [p.holds_eq_admits, Double.order?_eq_none_iff.mpr h, p.admits_none]

end Datum

end Emission
