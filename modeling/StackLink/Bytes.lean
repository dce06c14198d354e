/-! # Byte strings and little-endian words -/
namespace StackLink

abbrev Bytes := List UInt8

namespace Bytes

/-- The low-order `width` bytes of a number, least significant first. -/
def ofWord : (width : Nat) → Nat → Bytes
  | 0, _ => []
  | width + 1, n => UInt8.ofNat n :: ofWord width (n / 256)

def toWord : Bytes → Nat
  | [] => 0
  | b :: rest => b.toNat + 256 * toWord rest

@[simp] theorem length_ofWord (width n : Nat) : (ofWord width n).length = width := by
  induction width generalizing n with
  | zero => rfl
  | succ width ih => simp [ofWord, ih]

theorem toWord_ofWord (width n : Nat) : toWord (ofWord width n) = n % Nat.pow 256 width := by
  induction width generalizing n with
  | zero => simp [ofWord, toWord, Nat.mod_one]
  | succ width ih =>
    have byte : (UInt8.ofNat n).toNat = n % 256 := by simp
    change _ = n % (Nat.pow 256 width * 256)
    rw [ofWord, toWord, ih, byte, Nat.mul_comm (Nat.pow 256 width) 256, Nat.mod_mul]

def ofOffset (offset : Int16) : Bytes :=
  ofWord 2 offset.toUInt16.toNat

def toOffset (bytes : Bytes) : Int16 :=
  (UInt16.ofNat (toWord bytes)).toInt16

@[simp] theorem length_ofOffset (offset : Int16) : (ofOffset offset).length = 2 :=
  length_ofWord 2 _

@[simp] theorem toOffset_ofOffset (offset : Int16) : toOffset (ofOffset offset) = offset := by
  have h : offset.toUInt16.toNat % Nat.pow 256 2 = offset.toUInt16.toNat :=
    Nat.mod_eq_of_lt offset.toUInt16.toNat_lt
  rw [toOffset, ofOffset, toWord_ofWord, h]
  simp

def ofText (text : String) : Bytes :=
  text.toUTF8.data.toList

/-- The text whose UTF-8 form is given; `none` if the bytes are not valid UTF-8. -/
def toText? (bytes : Bytes) : Option String :=
  String.fromUTF8? ⟨bytes.toArray⟩

private def hexDigit (n : Nat) : Char :=
  "0123456789abcdef".toList.getD n '0'

def hexPair (b : UInt8) : String :=
  String.ofList [hexDigit (b.toNat / 16), hexDigit (b.toNat % 16)]

end Bytes
end StackLink
