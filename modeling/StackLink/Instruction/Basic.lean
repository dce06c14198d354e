import StackLink.Bytes
import StackLink.Binary64.Shortest
import StackLink.Instruction.Opcode

/-! # Instructions, their bytes and their text -/
namespace StackLink

inductive Instruction where
  | nullary (op : Opcode)
  | arithmetic (op : Opcode) (reversed : Bool)
  | trigonometric (op : Opcode) (register : UInt8)
  | register (op : Opcode) (register : UInt8)
  | memory (op : Opcode) (offset : Int16)
  | real (op : Opcode) (value : Binary64)
  | call (target : Int16)
deriving DecidableEq

namespace Instruction

def opcode : Instruction → Opcode
  | nullary op | arithmetic op _ | trigonometric op _ | register op _ | memory op _ | real op _ => op
  | call _ => .call

def shape : Instruction → Shape
  | nullary _ => .nullary
  | arithmetic _ _ => .arithmetic
  | trigonometric _ _ => .trigonometric
  | register _ _ => .register
  | memory _ _ => .memory
  | real _ _ => .real
  | call _ => .call

def size (i : Instruction) : Nat := i.opcode.size

theorem size_pos (i : Instruction) : 0 < i.size := by
  unfold size Opcode.size
  cases i.opcode <;> decide

def operandBytes : Instruction → Bytes
  | nullary _ => []
  | arithmetic _ reversed => [if reversed then 1 else 0]
  | trigonometric _ r | register _ r => [r]
  | memory _ offset | call offset => Bytes.ofOffset offset
  | real _ value => Bytes.ofWord 8 value.bits.toNat

def toBytes (i : Instruction) : Bytes :=
  i.opcode.number :: i.operandBytes

/-- Assembler text: registers as `r` and a number, memory offsets in brackets. -/
def text (i : Instruction) : String :=
  let name := i.opcode.mnemonic
  match i with
  | nullary _ => name
  | arithmetic _ reversed => if reversed then name ++ "r" else name
  | trigonometric _ r | register _ r => s!"{name} r{r.toNat}"
  | memory _ offset => s!"{name} [{offset.toInt}]"
  | real _ value => s!"{name} {value.text}"
  | call target => s!"{name} {target.toInt}"

end Instruction

inductive DecodeError where
  | empty
  | invalidOpcode (number : UInt8)
  | truncated (op : Opcode) (needed available : Nat)
  | invalidMode (op : Opcode) (flag : UInt8)
deriving DecidableEq

def DecodeError.message : DecodeError → String
  | empty => "no instruction to decode"
  | invalidOpcode number => s!"invalid opcode {number.toNat}"
  | truncated op needed available =>
    s!"instruction {op.name} needs {needed} operand bytes but only {available} remain"
  | invalidMode op flag => s!"instruction {op.name} has invalid mode flag {flag.toNat}"

namespace Instruction

/-- The instruction with this opcode whose operand bytes, as many as it needs, are given. -/
def ofOperand (op : Opcode) (operand : Bytes) : Except DecodeError Instruction :=
  let byte := UInt8.ofNat (Bytes.toWord operand)
  match op.shape with
  | .nullary => .ok (.nullary op)
  | .arithmetic =>
    if byte = 0 then .ok (.arithmetic op false)
    else if byte = 1 then .ok (.arithmetic op true)
    else .error (.invalidMode op byte)
  | .trigonometric => .ok (.trigonometric op byte)
  | .register => .ok (.register op byte)
  | .memory => .ok (.memory op (Bytes.toOffset operand))
  | .real => .ok (.real op ⟨UInt64.ofNat (Bytes.toWord operand)⟩)
  | .call => .ok (.call (Bytes.toOffset operand))

/-- The instruction at the start of `bytes`; what follows it is ignored. -/
def decode : Bytes → Except DecodeError Instruction
  | [] => .error .empty
  | number :: rest =>
    match Opcode.ofNumber? number with
    | none => .error (.invalidOpcode number)
    | some op =>
      let needed := op.size - 1
      let operand := rest.take needed
      if operand.length < needed then .error (.truncated op needed operand.length)
      else ofOperand op operand

end Instruction
end StackLink
