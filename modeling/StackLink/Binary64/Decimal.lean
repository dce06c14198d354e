import StackLink.Binary64
import StackLink.Text.Numeral

/-! # Reading a number from decimal text -/
namespace StackLink.Binary64

private def exponentPart? : List Char → Option Int
  | [] => some 0
  | mark :: rest =>
    if mark = 'e' ∨ mark = 'E' then
      match rest with
      | '-' :: digits => (Numeral.natural? digits).map fun n => -(n : Int)
      | '+' :: digits => (Numeral.natural? digits).map Int.ofNat
      | digits => (Numeral.natural? digits).map Int.ofNat
    else none

/-- The number of leading digits that matter. No number with more than 770 significant digits lies halfway
between two neighbours, so of what follows only counts whether it is zero. -/
private def decisiveLength : Nat := 800

private def decisive (digits : List Char) : List Char :=
  let leading := digits.take decisiveLength
  if (digits.drop decisiveLength).any (· ≠ '0') then leading ++ ['1'] else leading

def ofDecimal (negative : Bool) (digits : List Char) (exponent : Int) : Binary64 :=
  let significant := digits.dropWhile (· = '0')
  let point := exponent + significant.length
  if significant = [] ∨ point < -330 then zero negative
  else if 320 < point then infinity negative
  else
    let kept := decisive significant
    let e := point - kept.length
    ofRatio negative (Numeral.value kept * 10 ^ e.toNat) (10 ^ (-e).toNat)

/-- Digits with an optional point among or beside them, then an optional exponent. -/
private def numeral? (negative : Bool) (text : List Char) : Option Binary64 :=
  let (whole, rest) := Numeral.spanDigits text
  let (fraction, rest) := match rest with
    | '.' :: after => Numeral.spanDigits after
    | _ => ([], rest)
  if whole = [] ∧ fraction = [] then none
  else (exponentPart? rest).map fun exponent =>
    ofDecimal negative (whole ++ fraction) (exponent - fraction.length)

private def unsignedText? (negative : Bool) (text : List Char) : Option Binary64 :=
  let name := text.map Char.toLower
  if name = "inf".toList ∨ name = "infinity".toList then some (infinity negative)
  else if name = "nan".toList then some (if negative then nan.neg else nan)
  else numeral? negative text

/-- Reads a number: an optional sign, then a numeral or the name of an infinity or of NaN in any case. -/
def ofText? (text : String) : Option Binary64 :=
  match text.toList with
  | '-' :: rest => unsignedText? true rest
  | '+' :: rest => unsignedText? false rest
  | rest => unsignedText? false rest

end StackLink.Binary64
