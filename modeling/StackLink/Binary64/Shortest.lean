import StackLink.Binary64

/-! # Writing a number with the fewest digits that read back -/
namespace StackLink.Binary64

structure Decimal where
  digits : Nat
  exponent : Int

private def compareScaled (d : Decimal) (n : Nat) (k : Int) : Ordering :=
  compare (d.digits * 10 ^ d.exponent.toNat * 2 ^ (-k).toNat)
    (n * 2 ^ k.toNat * 10 ^ (-d.exponent).toNat)

/-- Whether a decimal lies among the numbers that round to the magnitude of `x`: up to halfway to each
neighbour, the ends included if the significand is even. The neighbour below a power of two is half
as far away. -/
def readsBack (x : Binary64) (d : Decimal) : Bool :=
  let m := x.significand
  let low := if x.fractionField = 0 ∧ 1 < x.exponentField then 4 * m - 1 else 4 * m - 2
  let ends := m % 2 = 0
  let aboveLow := match compareScaled d low (x.exponent - 2) with
    | .gt => true
    | .eq => ends
    | .lt => false
  let belowHigh := match compareScaled d (4 * m + 2) (x.exponent - 2) with
    | .lt => true
    | .eq => ends
    | .gt => false
  aboveLow && belowHigh

/-- The least `k` with `magnitude < 10 ^ k`, found near an estimate from the binary logarithm. -/
private def decimalScale (x : Binary64) : Int :=
  let binary := x.exponent + x.significand.log2
  let guess := binary * 30103 / 100000 - 1
  let below (k : Int) : Bool := compareScaled ⟨1, k⟩ x.significand x.exponent == .gt
  ((List.range 5).map fun i : Nat => guess + i).find? below |>.getD (guess + 5)

/-- The decimal nearest to `x` on the grid `10 ^ grid`, if one of the two around it reads back. Of two
equally near ones the larger is taken. -/
private def onGrid (x : Binary64) (grid : Int) : Option Decimal :=
  let num := x.significand * 2 ^ x.exponent.toNat * 10 ^ (-grid).toNat
  let den := 2 ^ (-x.exponent).toNat * 10 ^ grid.toNat
  let down := num / den
  let low : Decimal := ⟨down, grid⟩
  let high : Decimal := ⟨down + 1, grid⟩
  match x.readsBack low, x.readsBack high with
  | true, true => some (if 2 * (num % den) < den then low else high)
  | true, false => some low
  | false, true => some high
  | false, false => none

private def stripZeros : Nat → Decimal → Decimal
  | 0, d => d
  | fuel + 1, d =>
    if d.digits ≠ 0 ∧ d.digits % 10 = 0 then stripZeros fuel ⟨d.digits / 10, d.exponent + 1⟩ else d

def shortest (x : Binary64) : Decimal :=
  if x.isZero then ⟨0, 0⟩
  else
    let scale := decimalScale x
    let exact : Decimal :=
      ⟨x.significand * 2 ^ x.exponent.toNat * 5 ^ (-x.exponent).toNat, min x.exponent 0⟩
    let found := (List.range 17).findSome? fun n : Nat => onGrid x (scale - 1 - n)
    stripZeros 800 (found.getD exact)

private def digitsText (n : Nat) : List Char :=
  Nat.toDigits 10 n

/-- Lays digits out with a point: positionally where the leading digit stands for `10 ^ -4` up to
`10 ^ 15`, always with a digit on each side of the point; elsewhere with an exponent. -/
def Decimal.layout (d : Decimal) : String :=
  let digits := digitsText d.digits
  let lead : Int := d.exponent + digits.length - 1
  let text :=
    if d.digits = 0 then "0.0".toList
    else if -4 ≤ lead ∧ lead ≤ 15 then
      if lead < 0 then
        "0.".toList ++ List.replicate (-lead - 1).toNat '0' ++ digits
      else
        let whole := (lead + 1).toNat
        let padded := digits ++ List.replicate (whole - digits.length) '0'
        let fraction := padded.drop whole
        padded.take whole ++ '.' :: (if fraction = [] then ['0'] else fraction)
    else
      let tail := digits.drop 1
      let point := if tail = [] then [] else '.' :: tail
      digits.take 1 ++ point ++ 'e' :: (toString lead).toList
  String.ofList text

def text (x : Binary64) : String :=
  let sign := if x.isNegative then "-" else ""
  if x.isNaN then "NaN"
  else if x.isInfinite then sign ++ "inf"
  else sign ++ x.shortest.layout

end StackLink.Binary64
