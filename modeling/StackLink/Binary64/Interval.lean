import StackLink.Binary64

/-! # Enclosures of real numbers by fixed-point intervals

An interval at precision `p` stands for the reals between `lo / 2 ^ p` and `hi / 2 ^ p`. Every operation
rounds its ends outward, so the exact result stays inside. -/
namespace StackLink

open scoped Binary64

structure Interval where
  lo : Int
  hi : Int

namespace Interval

private def ceilDiv (a b : Int) : Int := -((-a).fdiv b)

def ofScaled (p : Nat) (mantissa : Int) (exponent : Int) : Interval :=
  let shift := exponent + p
  let up := mantissa * 2 ^ shift.toNat
  let down : Int := 2 ^ (-shift).toNat
  ⟨up.fdiv down, ceilDiv up down⟩

def ofRatio (p : Nat) (num : Int) (den : Nat) : Interval :=
  ⟨(num * 2 ^ p).fdiv den, ceilDiv (num * 2 ^ p) den⟩

def add (a b : Interval) : Interval := ⟨a.lo + b.lo, a.hi + b.hi⟩

def sub (a b : Interval) : Interval := ⟨a.lo - b.hi, a.hi - b.lo⟩

def neg (a : Interval) : Interval := ⟨-a.hi, -a.lo⟩

def widen (slack : Int) (a : Interval) : Interval := ⟨a.lo - slack, a.hi + slack⟩

def scale (n : Int) (a : Interval) : Interval :=
  if 0 ≤ n then ⟨n * a.lo, n * a.hi⟩ else ⟨n * a.hi, n * a.lo⟩

def shift (k : Int) (a : Interval) : Interval :=
  let up : Int := 2 ^ k.toNat
  let down : Int := 2 ^ (-k).toNat
  ⟨(a.lo * up).fdiv down, ceilDiv (a.hi * up) down⟩

/-- The square of an interval of nonnegative numbers. -/
def square (p : Nat) (a : Interval) : Interval :=
  ⟨(a.lo * a.lo).fdiv (2 ^ p), ceilDiv (a.hi * a.hi) (2 ^ p)⟩

/-- The quotient of nonnegative numbers by positive ones. -/
def div (p : Nat) (a b : Interval) : Interval :=
  ⟨(a.lo * 2 ^ p).fdiv b.hi, ceilDiv (a.hi * 2 ^ p) b.lo⟩

private def floorSqrt : (fuel : Nat) → Nat → Nat
  | 0, _ => 0
  | fuel + 1, n =>
    if n = 0 then 0
    else
      let root := 2 * floorSqrt fuel (n / 4)
      if (root + 1) * (root + 1) ≤ n then root + 1 else root

def sqrt (p : Nat) (a : Interval) : Interval :=
  let root (n : Int) : Int :=
    let scaled := n.toNat * 2 ^ p
    floorSqrt (scaled.log2 / 2 + 2) scaled
  ⟨root a.lo, root a.hi + 1⟩

def one (p : Nat) : Interval := ⟨2 ^ p, 2 ^ p⟩

/-! Power series. A series at precision `p` drops less than four units in each of at most `p + 2` terms and
less than four in the terms left out, so `slack p` bounds what it misses. -/

private def slack (p : Nat) : Int := 4 * p + 64

private def expTerms (p : Nat) (a : Int) : (fuel : Nat) → (k term sum : Int) → Int
  | 0, _, _, sum => sum
  | fuel + 1, k, term, sum =>
    if term = 0 then sum
    else expTerms p a fuel (k + 1) ((term * a).tdiv (2 ^ p * (k + 1))) (sum + term)

/-- `exp` of an interval within `[-1/2, 1/2]`. -/
def expSmall (p : Nat) (a : Interval) : Interval :=
  let at' (x : Int) : Int := expTerms p x (p + 2) 0 (2 ^ p) 0
  widen (slack p) ⟨at' a.lo, at' a.hi⟩

private def circularTerms (p : Nat) (square : Int) : (fuel : Nat) → (k term sum : Int) → Int
  | 0, _, _, sum => sum
  | fuel + 1, k, term, sum =>
    if term = 0 then sum
    else
      circularTerms p square fuel (k + 2) (-(term * square).tdiv (2 ^ p * ((k + 1) * (k + 2)))) (sum + term)

private def squareOf (p : Nat) (x : Int) : Int := (x * x).tdiv (2 ^ p)

/-- `sin` of an interval within `[-1, 1]`, where it increases. -/
def sinSmall (p : Nat) (a : Interval) : Interval :=
  let at' (x : Int) : Int := circularTerms p (squareOf p x) (p + 2) 1 x 0
  widen (slack p) ⟨at' a.lo, at' a.hi⟩

/-- `cos` of an interval within `[-1, 1]`, where it changes no faster than its argument. -/
def cosSmall (p : Nat) (a : Interval) : Interval :=
  let value := circularTerms p (squareOf p a.lo) (p + 2) 0 (2 ^ p) 0
  widen (slack p + (a.hi - a.lo)) ⟨value, value⟩

private def inverseTerms (p : Nat) (square : Int) : (fuel : Nat) → (k power sum : Int) → Int
  | 0, _, _, sum => sum
  | fuel + 1, k, power, sum =>
    if power = 0 then sum
    else inverseTerms p square fuel (k + 2) ((power * square).tdiv (2 ^ p)) (sum + power.tdiv k)

def artanhSmall (p : Nat) (a : Interval) : Interval :=
  let at' (x : Int) : Int := inverseTerms p (squareOf p x) (p + 2) 1 x 0
  widen (slack p) ⟨at' a.lo, at' a.hi⟩

def arctanSmall (p : Nat) (a : Interval) : Interval :=
  let at' (x : Int) : Int := inverseTerms p (-squareOf p x) (p + 2) 1 x 0
  widen (slack p) ⟨at' a.lo, at' a.hi⟩

/-- The circle constant, from `16 arctan (1/5) - 4 arctan (1/239)`. -/
def pi (p : Nat) : Interval :=
  (scale 16 (arctanSmall p (ofRatio p 1 5))).sub (scale 4 (arctanSmall p (ofRatio p 1 239)))

/-- The natural logarithm of two, from `2 artanh (1/3)`. -/
def ln2 (p : Nat) : Interval :=
  scale 2 (artanhSmall p (ofRatio p 1 3))

/-- Half the angle: `tan (t / 2) = tan t / (1 + sqrt (1 + tan t ^ 2))`. -/
private def halveTangent (p : Nat) (a : Interval) : Interval :=
  a.div p ((one p).add (((one p).add (a.square p)).sqrt p))

/-- The inverse tangent of an interval of nonnegative numbers. Above one it is taken of the inverse;
two halvings of the angle then bring the tangent below one half. -/
def arctan (p : Nat) (a : Interval) : Interval :=
  let upToOne (x : Interval) : Interval :=
    scale 4 (arctanSmall p (halveTangent p (halveTangent p x)))
  if 2 ^ p ≤ a.lo then (shift (-1) (pi p)).sub (upToOne ((one p).div p a))
  else upToOne a

def ln (p m : Nat) (e : Int) : Interval :=
  let top := if 3 * 2 ^ m.log2 < 2 * m then m.log2 + 1 else m.log2
  let ratio := ofRatio p ((m : Int) - 2 ^ top) (m + 2 ^ top)
  (scale (e + top) (ln2 p)).add (scale 2 (artanhSmall p ratio))

end Interval

/-- The reals between `lo * 2 ^ exponent` and `hi * 2 ^ exponent`. -/
structure Enclosure where
  lo : Int
  hi : Int
  exponent : Int

namespace Enclosure

def ofInterval (p : Nat) (a : Interval) : Enclosure := ⟨a.lo, a.hi, -p⟩

def nearest? (e : Enclosure) : Option Binary64 :=
  let low := Binary64.ofScaled e.lo e.exponent
  if low = Binary64.ofScaled e.hi e.exponent then some low else none

end Enclosure
end StackLink
