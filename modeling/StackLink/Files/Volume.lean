import Std.Data.ExtTreeMap
import StackLink.Files.Path

/-! # Files and directories in memory -/
namespace StackLink

inductive FileError where
  | notFound
  | notADirectory
  | isADirectory
  | nulInName
  | other (description : String)
deriving DecidableEq

def FileError.message : FileError → String
  | notFound => "No such file or directory (os error 2)"
  | notADirectory => "Not a directory (os error 20)"
  | isADirectory => "Is a directory (os error 21)"
  | nulInName => "file name contained an unexpected NUL byte"
  | other description => description

inductive FileNode where
  | file (content : Bytes)
  | directory
deriving DecidableEq

/-- The names that lead to a file or directory from the working directory. Steps up come first, and the root
of the system stands for all that lies above a location that starts with it. -/
abbrev Location := List Bytes

namespace Location

def working : Location := []

/-- The root of the system, under the one name that holds a slash. -/
def root : Location := [[Path.slash]]

def ascend (location : Location) : Location :=
  if location = root then root
  else if location.all (· = Path.above) then Path.above :: location
  else location.dropLast

/-- Whether the location is the working directory, above it, or the root: these are always directories. -/
def isGiven (location : Location) : Bool :=
  location = root || location.all (· = Path.above)

end Location

/-- What there is at each location, apart from the directories that are always there. -/
structure Volume where
  nodes : Std.ExtTreeMap Location FileNode

namespace Volume

def empty : Volume := ⟨∅⟩

def node? (volume : Volume) (location : Location) : Option FileNode :=
  if location.isGiven then some .directory else volume.nodes[location]?

/-- Follows the parts of a path from a location. Each step starts from a directory. -/
def walk (volume : Volume) (location : Location) : List Bytes → Except FileError Location
  | [] => .ok location
  | part :: rest =>
    match volume.node? location with
    | none => .error .notFound
    | some (.file _) => .error .notADirectory
    | some .directory =>
      if part = [] ∨ part = Path.here then volume.walk location rest
      else if part = Path.above then volume.walk location.ascend rest
      else
        match volume.node? (location ++ [part]) with
        | none => .error .notFound
        | some _ => volume.walk (location ++ [part]) rest

def route (path : Path) : Except FileError (Location × List Bytes) :=
  if path.contains 0 then .error .nulInName
  else if path = [] then .error .notFound
  else .ok (if path.isAbsolute then Location.root else Location.working, path.parts)

def find (volume : Volume) (path : Path) : Except FileError FileNode := do
  let (start, parts) ← route path
  let location ← volume.walk start parts
  match volume.node? location with
  | some node => .ok node
  | none => .error .notFound

/-- The location that a path names for something new, whose directory has to exist, and whether slashes
follow its last part. -/
def newLocation (volume : Volume) (path : Path) : Except FileError (Location × Bool) := do
  let (start, parts) ← route path
  let trailing := parts.reverse.takeWhile (· = [])
  match parts.reverse.dropWhile (· = []) with
  | [] => .error .isADirectory
  | last :: before => do
    let location ← volume.walk start before.reverse
    match volume.node? location with
    | none => .error .notFound
    | some (.file _) => .error .notADirectory
    | some .directory =>
      if last = Path.here ∨ last = Path.above then .error .isADirectory
      else .ok (location ++ [last], !trailing.isEmpty)

def put (volume : Volume) (location : Location) (content : Bytes) : Volume :=
  ⟨volume.nodes.insert location (.file content)⟩

/-- Writes a file, new or not. Its path does not end in a slash. -/
def write (volume : Volume) (path : Path) (content : Bytes) : Except FileError Volume := do
  let (location, slashed) ← volume.newLocation path
  if slashed then .error .isADirectory
  else
    match volume.node? location with
    | some .directory => .error .isADirectory
    | some (.file _) | none => .ok (volume.put location content)

def makeDirectory (volume : Volume) (path : Path) : Except FileError Volume := do
  let (location, _) ← volume.newLocation path
  .ok ⟨volume.nodes.insert location .directory⟩

def workingNames (volume : Volume) : List Bytes :=
  volume.nodes.keys.filterMap fun location =>
    match location with
    | [name] => some name
    | _ => none

end Volume
end StackLink
