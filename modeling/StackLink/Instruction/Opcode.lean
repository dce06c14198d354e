/-! # Operations of the stack machine -/
namespace StackLink

/-- What follows an opcode in an encoded instruction. -/
inductive Shape where
  | nullary
  /-- a mode flag, one for reversed operands -/
  | arithmetic
  | trigonometric
  | register
  | memory
  | real
  | call
deriving DecidableEq

/-- The size in bytes of an instruction of this shape, its opcode included. -/
def Shape.size : Shape → Nat
  | nullary => 1
  | arithmetic | trigonometric | register => 2
  | memory | call => 3
  | real => 9

inductive Opcode where
  | halt | ret | pop
  | pushRegister | pushMemory | pushReal
  | loadRegister | loadMemory | loadReal
  | sum | sub | mul | div | log | pow
  | sin | cos | tan | ctan | asin | acos | atan | actan
  | call
deriving DecidableEq

namespace Opcode

def all : List Opcode :=
  [halt, ret, pop, pushRegister, pushMemory, pushReal, loadRegister, loadMemory, loadReal,
    sum, sub, mul, div, log, pow, sin, cos, tan, ctan, asin, acos, atan, actan, call]

def number : Opcode → UInt8
  | halt => 0 | ret => 1 | pop => 2
  | pushRegister => 3 | pushMemory => 4 | pushReal => 5
  | loadRegister => 6 | loadMemory => 7 | loadReal => 8
  | sum => 9 | sub => 10 | mul => 11 | div => 12 | log => 13 | pow => 14
  | sin => 15 | cos => 16 | tan => 17 | ctan => 18
  | asin => 19 | acos => 20 | atan => 21 | actan => 22
  | call => 23

def ofNumber? (n : UInt8) : Option Opcode :=
  all[n.toNat]?

@[simp] theorem ofNumber?_number (op : Opcode) : ofNumber? op.number = some op := by
  cases op <;> rfl

def shape : Opcode → Shape
  | halt | ret | pop => .nullary
  | sum | sub | mul | div | log | pow => .arithmetic
  | sin | cos | tan | ctan | asin | acos | atan | actan => .trigonometric
  | pushRegister | loadRegister => .register
  | pushMemory | loadMemory => .memory
  | pushReal | loadReal => .real
  | call => .call

def size (op : Opcode) : Nat := op.shape.size

/-- The name in the dispatch table of the machine. -/
def name : Opcode → String
  | halt => "END" | ret => "RET" | pop => "POP"
  | pushRegister => "PUSH_REG" | pushMemory => "PUSH_MEM" | pushReal => "PUSH_REAL"
  | loadRegister => "FLD_REG" | loadMemory => "FLD_MEM" | loadReal => "FLD_REAL"
  | sum => "FSUM" | sub => "FSUB" | mul => "FMUL" | div => "FDIV" | log => "FLOG" | pow => "FPOW"
  | sin => "FSIN" | cos => "FCOS" | tan => "FTAN" | ctan => "FCTAN"
  | asin => "FASIN" | acos => "FACOS" | atan => "FATAN" | actan => "FACTAN"
  | call => "CALL"

/-- The name in assembler text, which pushes and loads of every kind share. -/
def mnemonic : Opcode → String
  | halt => "end" | ret => "ret" | pop => "pop"
  | pushRegister | pushMemory | pushReal => "push"
  | loadRegister | loadMemory | loadReal => "fld"
  | sum => "sum" | sub => "sub" | mul => "mul" | div => "div" | log => "log" | pow => "pow"
  | sin => "sin" | cos => "cos" | tan => "tan" | ctan => "ctan"
  | asin => "asin" | acos => "acos" | atan => "atan" | actan => "actan"
  | call => "call"

end Opcode
end StackLink
