import StackLink.Instruction.Encode
import StackLink.Module

/-! # Modules from statements -/
namespace StackLink

inductive Statement where
  /-- binds a name to the current position -/
  | label (name : Token)
  | instruction (mnemonic : Token) (operand : Option Token)
deriving DecidableEq

inductive AssemblyError where
  | encoding (statement : Nat) (error : EncodeError)
  | duplicateLabel (statement : Nat) (name : SymbolName)
  | labelOutOfRange (statement : Nat) (name : SymbolName)
deriving DecidableEq

namespace AssemblyError

def statement : AssemblyError → Nat
  | encoding n _ | duplicateLabel n _ | labelOutOfRange n _ => n

def message : AssemblyError → String
  | encoding n error => s!"statement {n}: {error.message}"
  | duplicateLabel n name => s!"statement {n}: label {name} is already defined"
  | labelOutOfRange n name => s!"statement {n}: label {name} is too far from the start of the module"

end AssemblyError

/-- The code of an instruction. A call of a name leaves its target to the linker. -/
def assembleInstruction (mnemonic : Token) (operand : Option Token) : Except EncodeError Code :=
  match mnemonic.tag, operand with
  | .call, some ⟨.ident, target⟩ => .ok (.seq (.bytes [Opcode.call.number]) (.ref target))
  | _, _ => (Instruction.encode mnemonic operand).map fun instruction => .bytes instruction.toBytes

structure Assembly where
  count : Nat
  offset : Nat
  /-- the labels, with their statements -/
  labels : Std.ExtTreeMap SymbolName Nat
  nodes : Array Code
  errors : Array AssemblyError

namespace Assembly

def start : Assembly := ⟨0, 0, ∅, #[], #[]⟩

/-- Takes the next statement. A label that is already there, or else too far from the start, is reported
and left out, and so is an instruction that cannot be encoded. -/
def step (state : Assembly) (statement : Statement) : Assembly :=
  let next := { state with count := state.count + 1 }
  match statement with
  | .label ⟨_, name⟩ =>
    if state.labels.contains name then
      { next with errors := state.errors.push (.duplicateLabel state.count name) }
    else if 32767 < state.offset then
      { next with errors := state.errors.push (.labelOutOfRange state.count name) }
    else
      { next with
        labels := state.labels.insert name state.count
        nodes := state.nodes.push (.mark name) }
  | .instruction mnemonic operand =>
    match assembleInstruction mnemonic operand with
    | .ok code =>
      { next with
        offset := state.offset + code.size
        nodes := state.nodes.push code }
    | .error error =>
      { next with errors := state.errors.push (.encoding state.count error) }

def run (statements : List Statement) : Assembly :=
  statements.foldl step start

def code (state : Assembly) : Code :=
  .sequence state.nodes.toList

end Assembly

namespace CodeError

def name : CodeError → SymbolName
  | unresolved name | outOfRange name _ => name

end CodeError

/-- The module that statements describe, or every statement at fault. -/
def assemble (name : ModuleName) (statements : List Statement) : Except (List AssemblyError) Module :=
  let state := Assembly.run statements
  match state.errors.toList with
  | [] =>
    match Module.ofCode name state.code with
    | .ok result => .ok result
    | .error e => .error [.labelOutOfRange (state.labels[e.name]?.getD statements.length) e.name]
  | errors => .error errors

end StackLink
