/-!
The parts of a double and what is computed from them exactly: truncation to a 64-bit integer, and the
remainder of a division. A finite double is its significand times a power of two, and with the scale
counted from the least exponent every finite double is a multiple of `2 ^ -1075`, so both are arithmetic
of natural numbers.
-/
namespace Emission.Double

def exponentField (x : Float) : Nat := (x.toBits.toNat >>> 52) % (1 <<< 11)

def fractionField (x : Float) : Nat := x.toBits.toNat % (1 <<< 52)

def isNegative (x : Float) : Bool := decide ((1 <<< 63) ≤ x.toBits.toNat)

def isInfinite (x : Float) : Bool := exponentField x == 2047 && fractionField x == 0

def significand (x : Float) : Nat :=
  if exponentField x = 0 then fractionField x else (1 <<< 52) + fractionField x

/-- The magnitude of a finite double in units of `2 ^ -1075`. -/
def units (x : Float) : Nat := significand x <<< max (exponentField x) 1

/-- The double of a sign and a magnitude in units of `2 ^ -1075`, with what does not fit cut off. -/
def ofUnits (negative : Bool) (units : Nat) : Float :=
  let scale := max (units.log2 - 52) 1
  let bits := ((scale - 1) <<< 52) + (units >>> scale)
  Float.ofBits (UInt64.ofNat (if negative then (1 <<< 63) + bits else bits))

/-- The integer part, and beyond the range of doubles a number larger than all of them. -/
def truncate (x : Float) : Int :=
  let n : Nat := units x >>> 1075
  if isNegative x then -n else n

/-- The largest signed integer of 64 bits. -/
def maximum : Int := Int.ofNat (1 <<< 63) - 1

/-- The integer part, held within the signed 64-bit range; not-a-number becomes zero. -/
def toWord (x : Float) : BitVec 64 :=
  if x.isNaN then 0
  else BitVec.ofInt 64 (max (-maximum - 1) (min maximum (truncate x)))

def ofWord (x : BitVec 64) : Float := Float.ofInt x.toInt

/-- The remainder of a division whose quotient is truncated. It is exact, and has the sign of the
dividend also where it is zero. -/
def remainder (x y : Float) : Float :=
  if x.isNaN || y.isNaN || isInfinite x || units y == 0 then 0.0 / 0.0
  else if isInfinite y then x
  else ofUnits (isNegative x) (units x % units y)

/-- The order of two doubles, which are unordered when one is not a number. -/
def order? (x y : Float) : Option Ordering :=
  if x < y then some .lt else if x == y then some .eq else if y < x then some .gt else none

/-- The larger of two doubles; a number is preferred to what is none. -/
def larger (x y : Float) : Float :=
  if x.isNaN then y else if y.isNaN then x else if x < y then y else x

/-- The smaller of two doubles; a number is preferred to what is none. -/
def smaller (x y : Float) : Float :=
  if x.isNaN then y else if y.isNaN then x else if y < x then y else x

end Emission.Double
