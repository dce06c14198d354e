import StackLink.ObjectFile

/-! # Writing object files -/
namespace StackLink.ObjectFile

def counted (content : Bytes) : Bytes :=
  Bytes.ofWord 2 content.length ++ content

def writeName (name : SymbolName) : Except ObjectFileError Bytes :=
  let text := Bytes.ofText name
  if maxLength < text.length then .error (.nameTooLong name) else .ok (counted text)

/-- A payload that is too long for one node is written as a sequence of its first part and the rest. -/
def writePayload (payload : Bytes) : Bytes :=
  if _h : maxLength < payload.length then
    tagSeq :: tagBytes :: counted (payload.take maxLength) ++ writePayload (payload.drop maxLength)
  else tagBytes :: counted payload
termination_by payload.length
decreasing_by
  simp only [List.length_drop, maxLength] at *
  omega

def writeCode : Code → Except ObjectFileError Bytes
  | .bytes payload => .ok (writePayload payload)
  | .ref name => do
    let name ← writeName name
    .ok (tagRef :: name)
  | .label name inner => do
    let name ← writeName name
    let inner ← writeCode inner
    .ok (tagLabel :: name ++ inner)
  | .seq first second => do
    let first ← writeCode first
    let second ← writeCode second
    .ok (tagSeq :: first ++ second)
  | .deferred first second => do
    let first ← writeCode first
    let second ← writeCode second
    .ok (tagDeferred :: first ++ second)

/-- The object file of a module. It fails only if a name in the code is too long. -/
def write (m : Module) : Except ObjectFileError Bytes := do
  let code ← writeCode m.code
  .ok (header ++ Bytes.ofText m.manifest.text ++ 0x0A :: code)

end StackLink.ObjectFile
