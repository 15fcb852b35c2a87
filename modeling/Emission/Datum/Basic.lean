import Emission.Datum.Double
import Emission.Failure

/-!
Single elements and their conversions. An integer is a bit pattern of its kind's width. It widens to 64 bits
by its own signedness and narrows by dropping the high bits. Every conversion between kinds goes through the
64-bit word, so a double saturates at the bounds of 64 bits and wraps below them.
-/
namespace Emission

inductive Datum
  | boolean (value : Bool)
  | integer (kind : IntKind) (bits : BitVec kind.width)
  | double (value : Float)
deriving DecidableEq

namespace IntKind

def widen (k : IntKind) (bits : BitVec k.width) : BitVec 64 :=
  if k.isSigned then bits.signExtend 64 else bits.setWidth 64

def narrow (k : IntKind) (word : BitVec 64) : BitVec k.width :=
  word.setWidth k.width

/-- The number that a bit pattern of the kind stands for. -/
def toInt (k : IntKind) (bits : BitVec k.width) : Int :=
  if k.isSigned then bits.toInt else bits.toNat

theorem width_le (k : IntKind) : k.width ≤ 64 := by
  cases k <;> decide

theorem narrow_widen (k : IntKind) (bits : BitVec k.width) : k.narrow (k.widen bits) = bits := by
  have hk := k.width_le
  apply BitVec.eq_of_getLsbD_eq
  intro i hi
  simp only [narrow, widen]
  split
  · simp [BitVec.getLsbD_signExtend, hi]
    omega
  · simp [hk]

end IntKind

namespace Datum

def kind : Datum → Kind
  | boolean _ => .boolean
  | integer k _ => .integer k
  | double _ => .double

def toWord : Datum → BitVec 64
  | boolean b => if b then 1 else 0
  | integer k bits => k.widen bits
  | double x => Double.toWord x

def toDouble : Datum → Float
  | double x => x
  | d => Double.ofWord d.toWord

/-- Whether the element counts as true: it is not zero. -/
def toBool : Datum → Bool
  | boolean b => b
  | double x => !(x == 0.0)
  | d => d.toWord != 0

def ofWord (word : BitVec 64) : Kind → Datum
  | .boolean => boolean (word != 0)
  | .integer k => integer k (k.narrow word)
  | .double => double (Double.ofWord word)

def zero : Kind → Datum
  | .boolean => boolean false
  | .integer k => integer k 0
  | .double => double 0.0

/-- The element as one of another kind. -/
def convert (d : Datum) : Kind → Datum
  | .boolean => boolean d.toBool
  | .integer k => integer k (k.narrow d.toWord)
  | .double => double d.toDouble

theorem kind_zero (k : Kind) : (zero k).kind = k := by
  cases k <;> rfl

theorem kind_convert (d : Datum) (k : Kind) : (d.convert k).kind = k := by
  cases k <;> rfl

theorem kind_ofWord (word : BitVec 64) (k : Kind) : (ofWord word k).kind = k := by
  cases k <;> rfl

/-- Nothing changes for an element that already has the kind. -/
theorem convert_self (d : Datum) : d.convert d.kind = d := by
  cases d <;> simp [convert, kind, toBool, toDouble, toWord, IntKind.narrow_widen]

/-- The position that an integer names. -/
def toIndex (d : Datum) : Except Failure Nat :=
  if d.toWord.toInt < 0 then .error (.invalidArgument (.negativeIndex d.toWord.toInt))
  else .ok d.toWord.toNat

end Datum

end Emission
