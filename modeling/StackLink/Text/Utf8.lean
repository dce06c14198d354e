import StackLink.Bytes

/-! # Reading bytes as text where they need not be valid UTF-8 -/
namespace StackLink.Text

/-- The ranges of the bytes that have to follow a first byte, and `none` if no character starts with it. -/
private def continuation (first : UInt8) : Option (List (UInt8 × UInt8)) :=
  let tail : UInt8 × UInt8 := (0x80, 0xBF)
  if first < 0x80 then some []
  else if first < 0xC2 then none
  else if first < 0xE0 then some [tail]
  else if first = 0xE0 then some [(0xA0, 0xBF), tail]
  else if first = 0xED then some [(0x80, 0x9F), tail]
  else if first < 0xF0 then some [tail, tail]
  else if first = 0xF0 then some [(0x90, 0xBF), tail, tail]
  else if first < 0xF4 then some [tail, tail, tail]
  else if first = 0xF4 then some [(0x80, 0x8F), tail, tail]
  else none

private def matching : List (UInt8 × UInt8) → Bytes → Nat
  | (low, high) :: ranges, b :: rest => if low ≤ b ∧ b ≤ high then matching ranges rest + 1 else 0
  | _, _ => 0

private def codePoint (first : UInt8) (rest : Bytes) : Nat :=
  let lead :=
    if first < 0x80 then first.toNat
    else if first < 0xE0 then first.toNat % 32
    else if first < 0xF0 then first.toNat % 16
    else first.toNat % 8
  rest.foldl (fun n b => n * 64 + b.toNat % 64) lead

private def lossyFrom (done : List Char) : (fuel : Nat) → Bytes → List Char
  | 0, _ => done.reverse
  | _, [] => done.reverse
  | fuel + 1, first :: rest =>
    match continuation first with
    | none => lossyFrom ('\uFFFD' :: done) fuel rest
    | some ranges =>
      let count := matching ranges rest
      let c := if count = ranges.length then Char.ofNat (codePoint first (rest.take count)) else '\uFFFD'
      lossyFrom (c :: done) fuel (rest.drop count)

/-- The text of some bytes. Each longest run that could start a character but does not complete one,
and each byte that starts none, becomes a replacement character. -/
def lossy (bytes : Bytes) : String :=
  String.ofList (lossyFrom [] bytes.length bytes)

end StackLink.Text
