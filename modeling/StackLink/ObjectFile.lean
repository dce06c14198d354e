import StackLink.Module

/-! # The format of object files

An object file holds a header, the manifest as text, an empty line and the code in prefix order. A node of
code is a tag byte followed by a length and content (bytes, references and labels), by a node (labels) or by
two nodes (sequences). Lengths are two bytes, least significant first. -/
namespace StackLink

inductive ObjectFileError where
  | missingHeader
  | unterminatedManifest
  | nonUnicodeManifest
  | manifest (errors : List LinkError)
  | truncated (position : Nat)
  | unknownTag (position : Nat) (tag : UInt8)
  | nonUnicodeName (position : Nat)
  | trailingData (position : Nat)
  | nameTooLong (name : SymbolName)
  | tooDeep (position : Nat)
deriving DecidableEq

namespace ObjectFile

def header : Bytes := Bytes.ofText "SYMTAB:\n"

/-- How deeply the nodes of a code section may be nested. -/
def maxDepth : Nat := 1024

def maxLength : Nat := 65535

def tagBytes : UInt8 := 0x42
def tagRef : UInt8 := 0x52
def tagLabel : UInt8 := 0x44
def tagSeq : UInt8 := 0x53
def tagDeferred : UInt8 := 0x54

end ObjectFile

def ObjectFileError.message : ObjectFileError → String
  | missingHeader => "file does not start with SYMTAB:"
  | unterminatedManifest => "symbol table is not followed by an empty line"
  | nonUnicodeManifest => "symbol table contains non-Unicode text"
  | manifest errors => LinkError.listing "symbol table is malformed:" errors
  | truncated position => s!"code section ends unexpectedly at byte {position}"
  | unknownTag position tag =>
    s!"code section has unknown tag 0x{Bytes.hexPair tag} at byte {position}"
  | nonUnicodeName position => s!"symbol name at byte {position} is not valid UTF-8"
  | trailingData position => s!"unexpected data after the code section at byte {position}"
  | nameTooLong name => s!"symbol name {name} is too long for an object file"
  | tooDeep position =>
    s!"code section nests more than {ObjectFile.maxDepth} levels deep at byte {position}"

end StackLink
