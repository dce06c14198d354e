import StackLink.Binary64.Interval

/-! # Elementary functions, each rounded to the nearest number

A value is enclosed at a growing precision until both ends round to the same number. Where a value is
rational it is given outright; elsewhere it is irrational, so it is no tie and some precision settles it. -/
namespace StackLink.Binary64

private def settle (extra : Nat) (enclose : Nat → Option Enclosure) : Binary64 :=
  let precisions := (List.range 6).map fun i => extra + 128 * 2 ^ i
  (precisions.findSome? fun p => (enclose p).bind Enclosure.nearest?).getD nan

private def fractionBits (x : Binary64) : Nat := (-x.exponent).toNat

private def enclosed (p : Nat) (x : Binary64) : Interval :=
  Interval.ofScaled p x.significand x.exponent

private def withSignOf (x y : Binary64) : Binary64 :=
  if x.isNegative then y.neg else y

/-- A finite number of quarter turns and what remains of the magnitude of `x`, at most an eighth of a turn. -/
private def quarterTurns (p : Nat) (x : Binary64) : Int × Interval :=
  let halfPi := (Interval.pi p).shift (-1)
  let a := enclosed p x
  let turns := (2 * a.lo + halfPi.lo).fdiv (2 * halfPi.lo)
  (turns, a.sub (halfPi.scale turns))

private def turnBits (x : Binary64) : Nat :=
  2 * (x.exponent + 53).toNat + x.fractionBits

private def sinMagnitude (x : Binary64) : Binary64 :=
  settle x.turnBits fun p =>
    let (turns, r) := quarterTurns p x
    let value := match turns.emod 4 with
      | 0 => r.sinSmall p
      | 1 => r.cosSmall p
      | 2 => (r.sinSmall p).neg
      | _ => (r.cosSmall p).neg
    some (Enclosure.ofInterval p value)

def sin (x : Binary64) : Binary64 :=
  if x.isNaN || x.isInfinite then nan
  else if x.isZero then x
  else x.withSignOf x.sinMagnitude

def cos (x : Binary64) : Binary64 :=
  if x.isNaN || x.isInfinite then nan
  else if x.isZero then one
  else settle x.turnBits fun p =>
    let (turns, r) := quarterTurns p x
    let value := match turns.emod 4 with
      | 0 => r.cosSmall p
      | 1 => (r.sinSmall p).neg
      | 2 => (r.cosSmall p).neg
      | _ => r.sinSmall p
    some (Enclosure.ofInterval p value)

private def quotient? (p : Nat) (a b : Interval) : Option Interval :=
  let positive (x : Interval) : Option (Bool × Interval) :=
    if 0 < x.lo then some (false, x) else if x.hi < 0 then some (true, x.neg) else none
  match positive a, positive b with
  | some (s, a), some (t, b) => some (if s == t then a.div p b else (a.div p b).neg)
  | _, _ => none

private def tanMagnitude (x : Binary64) : Binary64 :=
  settle x.turnBits fun p =>
    let (turns, r) := quarterTurns p x
    let value :=
      if turns.emod 2 = 0 then quotient? p (r.sinSmall p) (r.cosSmall p)
      else (quotient? p (r.cosSmall p) (r.sinSmall p)).map Interval.neg
    value.map (Enclosure.ofInterval p)

def tan (x : Binary64) : Binary64 :=
  if x.isNaN || x.isInfinite then nan
  else if x.isZero then x
  else x.withSignOf x.tanMagnitude

private def halfPi : Binary64 :=
  settle 0 fun p => some (Enclosure.ofInterval p ((Interval.pi p).shift (-1)))

def atan (x : Binary64) : Binary64 :=
  if x.isNaN then nan
  else if x.isZero then x
  else if x.isInfinite then x.withSignOf halfPi
  else x.withSignOf (settle x.fractionBits fun p =>
    some (Enclosure.ofInterval p ((enclosed p x).arctan p)))

private def arcsin (p : Nat) (x : Binary64) : Interval :=
  let a := enclosed p x
  (a.div p (((Interval.one p).sub (a.square p)).sqrt p)).arctan p

private def compareOne (x : Binary64) : Ordering :=
  compare (x.bits &&& 0x7FFFFFFFFFFFFFFF) one.bits

def asin (x : Binary64) : Binary64 :=
  if x.isNaN then nan
  else if x.isZero then x
  else match x.compareOne with
    | .gt => nan
    | .eq => x.withSignOf halfPi
    | .lt => x.withSignOf (settle x.fractionBits fun p => some (Enclosure.ofInterval p (x.arcsin p)))

def acos (x : Binary64) : Binary64 :=
  if x.isNaN then nan
  else if x.isZero then halfPi
  else match x.compareOne with
    | .gt => nan
    | .eq =>
      if x.isNegative then settle 0 fun p => some (Enclosure.ofInterval p (Interval.pi p))
      else zero false
    | .lt => settle x.fractionBits fun p =>
      let quarter := (Interval.pi p).shift (-1)
      let angle := x.arcsin p
      some (Enclosure.ofInterval p (if x.isNegative then quarter.add angle else quarter.sub angle))

/-- `exp` of an interval of numbers between -1000 and 1000. -/
private def expEnclosure (p : Nat) (a : Interval) : Enclosure :=
  let ln2 := Interval.ln2 p
  let doublings := (2 * a.lo + ln2.lo).fdiv (2 * ln2.lo)
  let e := (a.sub (ln2.scale doublings)).expSmall p
  ⟨e.lo, e.hi, doublings - p⟩

private def expInRange (p : Nat) (a : Interval) : Enclosure :=
  if 1000 * 2 ^ p < a.lo then ⟨1, 1, 2000⟩
  else if a.hi < -1000 * 2 ^ p then ⟨1, 1, -2000⟩
  else expEnclosure p a

def exp (x : Binary64) : Binary64 :=
  if x.isNaN then nan
  else if x.isInfinite then if x.isNegative then zero false else infinity false
  else if x.isZero then one
  else settle x.fractionBits fun p =>
    let a := enclosed p x
    some (expInRange p (if x.isNegative then a.neg else a))

def ln (x : Binary64) : Binary64 :=
  if x.isNaN then nan
  else if x.isZero then infinity true
  else if x.isNegative then nan
  else if x.isInfinite then x
  else if x = one then zero false
  else settle 0 fun p => some (Enclosure.ofInterval p (Interval.ln p x.significand x.exponent))

/-! The power function. -/

/-- Divides by two while the number is even and positive, counting the divisions. -/
private def oddPart : (fuel : Nat) → Nat → Nat × Nat
  | 0, n => (n, 0)
  | fuel + 1, n =>
    if n % 2 = 0 ∧ n ≠ 0 then
      let (odd, twos) := oddPart fuel (n / 2)
      (odd, twos + 1)
    else (n, 0)

private def oddScaled (x : Binary64) : Nat × Int :=
  let (odd, twos) := oddPart 53 x.significand
  (odd, x.exponent + twos)

private def isOddInteger (x : Binary64) : Bool :=
  !x.isZero && x.oddScaled.2 == 0

private def isInteger (x : Binary64) : Bool :=
  x.isZero || 0 ≤ x.oddScaled.2

private def exactRoot? : (k : Nat) → Nat → Option Nat
  | 0, n => some n
  | k + 1, n =>
    let candidate := (List.range 28).reverse.foldl
      (fun root i => if (root + 2 ^ i) * (root + 2 ^ i) ≤ n then root + 2 ^ i else root) 0
    if candidate * candidate = n then exactRoot? k candidate else none

/-- The power of a positive finite number to a finite exponent other than zero where it is rational and has
few digits, as an odd number and an exponent. Of an odd number above one that takes a positive exponent,
at most 64, whose denominator is at most 32. -/
private def exactPower? (x y : Binary64) : Option (Nat × Int) :=
  let (odd, twos) := x.oddScaled
  let (num, shift) := y.oddScaled
  let num : Int := if y.isNegative then -num else num
  let den : Nat := 2 ^ (-shift).toNat
  let whole : Int := num * 2 ^ shift.toNat
  if (twos * whole) % den ≠ 0 then none
  else if odd = 1 then some (1, twos * whole / den)
  else if 0 < whole ∧ whole ≤ 64 ∧ -shift ≤ 5 then
    (exactRoot? (-shift).toNat odd).map fun root => (root ^ whole.toNat, twos * whole / den)
  else none

private def powMagnitude (x y : Binary64) : Binary64 :=
  match exactPower? x y with
  | some (odd, exponent) => ofScaled odd exponent
  | none =>
    let num : Int := if y.isNegative then -y.significand else y.significand
    settle 128 fun p =>
      some (expInRange p (((Interval.ln p x.significand x.exponent).scale num).shift y.exponent))

private def powInfinite (x y : Binary64) : Binary64 :=
  match x.compareOne with
  | .eq => one
  | .lt => if y.isNegative then infinity false else zero false
  | .gt => if y.isNegative then zero false else infinity false

/-- The power. Whatever the other operand is, a power to zero and a power of one are one, unless that operand
is a signaling NaN. -/
def pow (x y : Binary64) : Binary64 :=
  if x.isSignaling || y.isSignaling then nan
  else if y.isZero || x = one then one
  else if x.isNaN || y.isNaN then nan
  else if y.isInfinite then powInfinite x y
  else
    let negative := x.isNegative && y.isOddInteger
    if x.isZero then if y.isNegative then infinity negative else zero negative
    else if x.isInfinite then if y.isNegative then zero negative else infinity negative
    else if x.isNegative && !y.isInteger then nan
    else
      let magnitude := powMagnitude x.abs y
      if negative then magnitude.neg else magnitude

end StackLink.Binary64
