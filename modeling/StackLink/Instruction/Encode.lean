import StackLink.Token
import StackLink.Text.Blank
import StackLink.Text.Numeral
import StackLink.Binary64.Decimal
import StackLink.Instruction.Basic

/-! # Instructions from a mnemonic and its operand -/
namespace StackLink

inductive EncodeError where
  | notAMnemonic (token : Token)
  | missingOperand (mnemonic : Token)
  | unexpectedOperand (mnemonic operand : Token)
  | operandMismatch (mnemonic operand : Token)
  | badOperand (operand : Token) (expected : String)
deriving DecidableEq

def EncodeError.message : EncodeError → String
  | notAMnemonic token => s!"'{token.text}' is not an instruction mnemonic"
  | missingOperand mnemonic => s!"instruction '{mnemonic.text}' requires an operand"
  | unexpectedOperand mnemonic operand =>
    s!"instruction '{mnemonic.text}' takes no operand, but '{operand.text}' was given"
  | operandMismatch mnemonic operand =>
    s!"operand '{operand.text}' ({operand.tag.name}) is not valid for instruction '{mnemonic.text}'"
  | badOperand operand expected => s!"operand '{operand.text}' is not a valid {expected}"

/-- What a mnemonic expects. -/
inductive Form where
  /-- no operand -/
  | complete (instruction : Instruction)
  /-- a register -/
  | trigonometric (op : Opcode)
  /-- a register, a memory offset or a number, each with its own operation -/
  | transfer (register memory real : Opcode)
  /-- a target offset -/
  | call

def Tag.form? : Tag → Option Form
  | halt => some (.complete (.nullary .halt))
  | ret => some (.complete (.nullary .ret))
  | pop => some (.complete (.nullary .pop))
  | sum => some (.complete (.arithmetic .sum false))
  | sumR => some (.complete (.arithmetic .sum true))
  | sub => some (.complete (.arithmetic .sub false))
  | subR => some (.complete (.arithmetic .sub true))
  | mul => some (.complete (.arithmetic .mul false))
  | mulR => some (.complete (.arithmetic .mul true))
  | div => some (.complete (.arithmetic .div false))
  | divR => some (.complete (.arithmetic .div true))
  | log => some (.complete (.arithmetic .log false))
  | logR => some (.complete (.arithmetic .log true))
  | pow => some (.complete (.arithmetic .pow false))
  | powR => some (.complete (.arithmetic .pow true))
  | sin => some (.trigonometric .sin)
  | cos => some (.trigonometric .cos)
  | tan => some (.trigonometric .tan)
  | ctan => some (.trigonometric .ctan)
  | asin => some (.trigonometric .asin)
  | acos => some (.trigonometric .acos)
  | atan => some (.trigonometric .atan)
  | actan => some (.trigonometric .actan)
  | fld => some (.transfer .loadRegister .loadMemory .loadReal)
  | push => some (.transfer .pushRegister .pushMemory .pushReal)
  | call => some .call
  | register | number | real | ident | plus | minus | star | slash | caret => none

/-- Reads the text of an operand, blanks around it apart. -/
def readOperand {α : Type} (read : String → Option α) (expected : String) (operand : Token) :
    Except EncodeError α :=
  match read (Text.trim operand.text) with
  | some value => .ok value
  | none => .error (.badOperand operand expected)

def readRegister : Token → Except EncodeError UInt8 :=
  readOperand Numeral.byte? "register number"

def readOffset : Token → Except EncodeError Int16 :=
  readOperand Numeral.offset? "16-bit signed offset"

def readReal : Token → Except EncodeError Binary64 :=
  readOperand Binary64.ofText? "real number"

/-- The instruction that a form makes of an operand, or `none` if an operand of this kind does not suit it. -/
def Form.fill? (operand : Token) : Form → Option (Except EncodeError Instruction)
  | .complete _ => none
  | .trigonometric op =>
    match operand.tag with
    | .register => some ((readRegister operand).map (.trigonometric op))
    | _ => none
  | .transfer register memory real =>
    match operand.tag with
    | .register => some ((readRegister operand).map (.register register))
    | .number => some ((readOffset operand).map (.memory memory))
    | .real => some ((readReal operand).map (.real real))
    | _ => none
  | .call =>
    match operand.tag with
    | .number => some ((readOffset operand).map .call)
    | _ => none

def Instruction.encode (mnemonic : Token) (operand : Option Token) : Except EncodeError Instruction :=
  match mnemonic.tag.form?, operand with
  | none, _ => .error (.notAMnemonic mnemonic)
  | some (.complete instruction), none => .ok instruction
  | some (.complete _), some operand => .error (.unexpectedOperand mnemonic operand)
  | some _, none => .error (.missingOperand mnemonic)
  | some form, some operand =>
    match form.fill? operand with
    | some result => result
    | none => .error (.operandMismatch mnemonic operand)

end StackLink
