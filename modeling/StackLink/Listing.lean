import StackLink.Instruction.Basic
import StackLink.Text.Layout

/-! # Listings of images -/
namespace StackLink

namespace Listing

structure Row where
  offset : Nat
  instruction : Instruction
deriving DecidableEq

def Row.text (row : Row) : String :=
  let bytes := " ".intercalate (row.instruction.toBytes.map Bytes.hexPair)
  Text.padLeft 6 (toString row.offset) ++ "|" ++ Text.padRight 30 bytes ++ "|" ++ row.instruction.text

structure Stop where
  offset : Nat
  error : DecodeError
deriving DecidableEq

def Stop.message (stop : Stop) : String :=
  s!"cannot disassemble the instruction at offset {stop.offset}: {stop.error.message}"

end Listing

/-- The instructions of an image, one after another, up to its end or to where no instruction starts. -/
structure Listing where
  rows : List Listing.Row
  stop : Option Listing.Stop
deriving DecidableEq

namespace Listing

def extend (rows : Array Row) (offset : Nat) (image : Bytes) : Listing :=
  match image with
  | [] => ⟨rows.toList, none⟩
  | b :: rest =>
    match Instruction.decode (b :: rest) with
    | .error e => ⟨rows.toList, some ⟨offset, e⟩⟩
    | .ok instruction =>
      extend (rows.push ⟨offset, instruction⟩) (offset + instruction.size)
        ((b :: rest).drop instruction.size)
termination_by image.length
decreasing_by
  have hpos := instruction.size_pos
  simp only [List.length_drop, List.length_cons]
  omega

def ofImage (image : Bytes) : Listing :=
  extend #[] 0 image

def text (listing : Listing) : String :=
  listing.rows.foldl (fun text row => text ++ row.text ++ "\n") ""

end Listing
end StackLink
