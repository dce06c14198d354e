import StackLink.Files.Store
import StackLink.ObjectFile.Read
import StackLink.ObjectFile.Write
import StackLink.Trace

/-! # Linking object files -/
namespace StackLink

inductive LinkerFailure where
  | reading (path : Path) (cause : FileError)
  | writing (path : Path) (cause : FileError)
  | badObjectFile (path : Path) (cause : ObjectFileError)
  | link (failure : LinkFailure)
deriving DecidableEq

def LinkerFailure.message : LinkerFailure → String
  | reading path cause => s!"I/O error reading {path.display}: {cause.message}"
  | writing path cause => s!"I/O error writing {path.display}: {cause.message}"
  | badObjectFile path cause => s!"invalid object file {path.remarked}: {cause.message}"
  | link failure => failure.message

namespace Files

variable {m : Type → Type} [Monad m] [FileStore m]

/-- The module that the content of a file holds, named after the file. -/
def decode (path : Path) (data : Bytes) : Except LinkerFailure Module :=
  match ObjectFile.read path.moduleName data with
  | .ok result => .ok result
  | .error (.manifest errors) => .error (.link ⟨errors⟩)
  | .error cause => .error (.badObjectFile path cause)

def readModule (path : Path) : m (Except LinkerFailure Module) := do
  match ← FileStore.read path with
  | .ok data => return decode path data
  | .error e => return .error (.reading path e.cause)

def writeBytes (path : Path) (content : Bytes) : m (Except LinkerFailure Unit) := do
  match ← FileStore.write path content with
  | .ok () => return .ok ()
  | .error cause => return .error (.writing path cause)

def writeModule (path : Path) (object : Module) : m (Except LinkerFailure Unit) := do
  match ObjectFile.write object with
  | .ok content => writeBytes path content
  | .error cause => return .error (.badObjectFile path cause)

/-- What reading a list of object files gave, up to the first that cannot be used at all. Malformed
manifests do not end the reading. -/
structure Loaded where
  modules : List Module
  malformed : List LinkError
  stopped : Option LinkerFailure

def readModules : List Path → m Loaded
  | [] => return ⟨[], [], none⟩
  | path :: rest => do
    match ← readModule path with
    | .ok object =>
      let later ← readModules rest
      return { later with modules := object :: later.modules }
    | .error (.link failure) =>
      let later ← readModules rest
      return { later with malformed := failure.errors ++ later.malformed }
    | .error failure => return ⟨[], [], some failure⟩

namespace Loaded

def result (loaded : Loaded) : Except LinkerFailure (List Module) :=
  match loaded.stopped, loaded.malformed with
  | some failure, _ => .error failure
  | none, [] => .ok loaded.modules
  | none, errors => .error (.link ⟨errors⟩)

def events (loaded : Loaded) : List Event :=
  loaded.modules.map fun object => .read object.name object.manifest.length

end Loaded

structure LinkOptions where
  /-- print the link map, or the manifest of a combined module -/
  map : Bool
  /-- combine the modules into an object file instead of an image -/
  combine : Bool
deriving DecidableEq

structure LinkReport where
  printed : String
  events : List Event
  result : Except LinkerFailure Unit

/-- Links object files, in their order, and writes the image or the combined object file. Nothing is written
unless the link succeeds. -/
def linkFiles (inputs : List Path) (output : Path) (options : LinkOptions) : m LinkReport := do
  let loaded ← readModules inputs
  match loaded.result with
  | .error failure => return ⟨"", loaded.events, .error failure⟩
  | .ok modules =>
    if options.combine then
      let name := output.moduleName
      let events := loaded.events ++ partialLinkEvents name modules
      match partialLink name modules with
      | .error failure => return ⟨"", events, .error (.link failure)⟩
      | .ok combined =>
        let result ← writeModule output combined
        return ⟨if options.map then combined.manifest.text else "", events, result⟩
    else
      let events := loaded.events ++ linkEvents modules
      match StackLink.link modules with
      | .error failure => return ⟨"", events, .error (.link failure)⟩
      | .ok image =>
        let result ← writeBytes output image.bytes
        return ⟨if options.map then image.map else "", events, result⟩

end Files
end StackLink
