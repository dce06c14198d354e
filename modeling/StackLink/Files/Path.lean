import StackLink.Text.Utf8
import StackLink.Symbol

/-! # Paths of files -/
namespace StackLink

abbrev Path := Bytes

namespace Path

def slash : UInt8 := 0x2F

private def dot : UInt8 := 0x2E

def here : Bytes := [dot]

def above : Bytes := [dot, dot]

/-- The parts of a path between its slashes, empty ones included. -/
def parts (path : Path) : List Bytes :=
  let (first, later) := path.foldr
    (fun b (current, later) => if b = slash then ([], current :: later) else (b :: current, later))
    ([], [])
  first :: later

def isAbsolute (path : Path) : Bool :=
  path.head? = some slash

def display (path : Path) : String :=
  Text.lossy path

/-- A path as text, with a remark if it had to be changed. -/
def remarked (path : Path) : String :=
  match Bytes.toText? path with
  | some text => text
  | none => path.display ++ " (some non-Unicode characters changed to make it printable)"

/-- The last name of a path, unless it ends in the directory above. -/
def fileName? (path : Path) : Option Bytes :=
  match (path.parts.filter fun part => part ≠ [] && part ≠ here).getLast? with
  | some name => if name = above then none else some name
  | none => none

def moduleName (path : Path) : ModuleName :=
  display (path.fileName?.getD path)

end Path
end StackLink
