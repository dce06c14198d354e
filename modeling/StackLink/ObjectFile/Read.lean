import StackLink.ObjectFile

/-! # Reading object files -/
namespace StackLink.ObjectFile

/-- What is left of a file, and how far into the file it starts. -/
structure Cursor where
  position : Nat
  rest : Bytes

def Cursor.take (cursor : Cursor) (count : Nat) : Except ObjectFileError (Bytes × Cursor) :=
  let chunk := cursor.rest.take count
  if chunk.length < count then .error (.truncated (cursor.position + cursor.rest.length))
  else .ok (chunk, ⟨cursor.position + count, cursor.rest.drop count⟩)

def readCounted (cursor : Cursor) : Except ObjectFileError (Bytes × Cursor) := do
  let (length, cursor) ← cursor.take 2
  cursor.take (Bytes.toWord length)

def readName (cursor : Cursor) : Except ObjectFileError (SymbolName × Cursor) := do
  let (content, next) ← readCounted cursor
  match Bytes.toText? content with
  | some name => .ok (name, next)
  | none => .error (.nonUnicodeName (cursor.position + 2))

/-- Reads a node that may nest `levels - 1` levels of nodes. -/
def readCode : (levels : Nat) → Cursor → Except ObjectFileError (Code × Cursor)
  | 0, cursor => .error (.tooDeep cursor.position)
  | levels + 1, cursor => do
    let (tag, next) ← cursor.take 1
    let tag := UInt8.ofNat (Bytes.toWord tag)
    if tag = tagBytes then
      let (payload, next) ← readCounted next
      .ok (.bytes payload, next)
    else if tag = tagRef then
      let (name, next) ← readName next
      .ok (.ref name, next)
    else if tag = tagLabel then
      let (name, next) ← readName next
      let (inner, next) ← readCode levels next
      .ok (.label name inner, next)
    else if tag = tagSeq then
      let (first, next) ← readCode levels next
      let (second, next) ← readCode levels next
      .ok (.seq first second, next)
    else if tag = tagDeferred then
      let (first, next) ← readCode levels next
      let (second, next) ← readCode levels next
      .ok (.deferred first second, next)
    else .error (.unknownTag cursor.position tag)

/-- Where the first empty line is; `lineStart` says whether a line starts here. -/
def emptyLine? (position : Nat) (lineStart : Bool) : Bytes → Option Nat
  | [] => none
  | b :: rest =>
    if b = 0x0A then
      if lineStart then some position else emptyLine? (position + 1) true rest
    else emptyLine? (position + 1) false rest

def afterHeader? (data : Bytes) : Option Bytes :=
  if header.isPrefixOf data then some (data.drop header.length) else none

def read (name : ModuleName) (data : Bytes) : Except ObjectFileError Module :=
  match afterHeader? data with
  | none => .error .missingHeader
  | some body =>
    match emptyLine? 0 true body with
    | none => .error .unterminatedManifest
    | some length =>
      match Bytes.toText? (body.take length) with
      | none => .error .nonUnicodeManifest
      | some text =>
        match Manifest.parse name text with
        | .error errors => .error (.manifest errors)
        | .ok manifest => do
          let start : Cursor := ⟨header.length + length + 1, body.drop (length + 1)⟩
          let (code, last) ← readCode (maxDepth + 1) start
          match last.rest with
          | [] => .ok ⟨name, manifest, code⟩
          | _ :: _ => .error (.trailingData last.position)

end StackLink.ObjectFile
