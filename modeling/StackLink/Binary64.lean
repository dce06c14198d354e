/-! # Numbers of 64 bits: fields, exact values and rounding to nearest -/
namespace StackLink

/-- A 64-bit floating-point number, known by its bits, so that every NaN is told apart. -/
structure Binary64 where
  bits : UInt64
deriving DecidableEq

namespace Binary64

/-- Powers mean the same below whatever other instances are in scope. -/
scoped instance (priority := 2000) natPower {α : Type} [NatPow α] : Pow α Nat :=
  instPowNat

def isNegative (x : Binary64) : Bool :=
  x.bits >>> 63 == 1

def exponentField (x : Binary64) : Nat :=
  ((x.bits >>> 52) &&& 0x7FF).toNat

def fractionField (x : Binary64) : Nat :=
  (x.bits &&& 0xFFFFFFFFFFFFF).toNat

def isNaN (x : Binary64) : Bool :=
  x.exponentField == 0x7FF && x.fractionField != 0

def isSignaling (x : Binary64) : Bool :=
  x.isNaN && x.fractionField < 2 ^ (51 : Nat)

def isInfinite (x : Binary64) : Bool :=
  x.exponentField == 0x7FF && x.fractionField == 0

def isZero (x : Binary64) : Bool :=
  x.exponentField == 0 && x.fractionField == 0

/-- The number with this sign whose other 63 bits are `magnitude`. -/
def ofMagnitude (negative : Bool) (magnitude : UInt64) : Binary64 :=
  ⟨if negative then magnitude ||| 0x8000000000000000 else magnitude⟩

def zero (negative : Bool) : Binary64 := ofMagnitude negative 0

def one : Binary64 := ⟨0x3FF0000000000000⟩

def infinity (negative : Bool) : Binary64 := ofMagnitude negative 0x7FF0000000000000

def nan : Binary64 := ⟨0x7FF8000000000000⟩

def neg (x : Binary64) : Binary64 := ⟨x.bits ^^^ 0x8000000000000000⟩

def abs (x : Binary64) : Binary64 := ⟨x.bits &&& 0x7FFFFFFFFFFFFFFF⟩

/-- The significand `m` of a finite number, whose magnitude is `m * 2 ^ exponent`. -/
def significand (x : Binary64) : Nat :=
  if x.exponentField = 0 then x.fractionField else 2 ^ (52 : Nat) + x.fractionField

def exponent (x : Binary64) : Int :=
  if x.exponentField = 0 then -1074 else (x.exponentField : Int) - 1075

/-- `num / den` to the nearest integer, a half going to the even one. -/
def divNearest (num den : Nat) : Nat :=
  let quotient := num / den
  let twice := 2 * (num % den)
  if twice < den then quotient
  else if den < twice then quotient + 1
  else quotient + quotient % 2

/-- The exponent at which `num / den` has 53 bits before the point, or the least exponent there is. -/
private def ratioExponent (num den : Nat) : Int :=
  let guess : Int := (num.log2 : Int) - den.log2 - 53
  let long : Bool := 2 ^ (53 : Nat) * (den * 2 ^ guess.toNat) ≤ num * 2 ^ (-guess).toNat
  max (if long then guess + 1 else guess) (-1074)

/-- The positive or negative number nearest to `num / den`, a half going to the even significand.
Magnitudes beyond the range become infinite. -/
def ofRatio (negative : Bool) (num den : Nat) : Binary64 :=
  if num = 0 then zero negative
  else
    let e := ratioExponent num den
    let q := divNearest (num * 2 ^ (-e).toNat) (den * 2 ^ e.toNat)
    let magnitude := (e + 1074).toNat * 2 ^ (52 : Nat) + q
    ofMagnitude negative (UInt64.ofNat (min magnitude 0x7FF0000000000000))

def ofScaled (mantissa : Int) (exponent : Int) : Binary64 :=
  let size := exponent + mantissa.natAbs.log2
  if mantissa ≠ 0 && 1024 < size then infinity (mantissa < 0)
  else if mantissa ≠ 0 && size < -1080 then zero (mantissa < 0)
  else ofRatio (mantissa < 0) (mantissa.natAbs * 2 ^ exponent.toNat) (2 ^ (-exponent).toNat)

/-! Sum, difference, product, quotient and square root are each rounded once. -/

private def toFloat (x : Binary64) : Float := Float.ofBits x.bits

private def ofFloat (x : Float) : Binary64 := ⟨x.toBits⟩

def add (x y : Binary64) : Binary64 := ofFloat (x.toFloat + y.toFloat)

def sub (x y : Binary64) : Binary64 := ofFloat (x.toFloat - y.toFloat)

def mul (x y : Binary64) : Binary64 := ofFloat (x.toFloat * y.toFloat)

def div (x y : Binary64) : Binary64 := ofFloat (x.toFloat / y.toFloat)

def sqrt (x : Binary64) : Binary64 := ofFloat x.toFloat.sqrt

end Binary64
end StackLink
