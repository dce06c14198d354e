import StackLink.Files.Volume

/-! # Access to files -/
namespace StackLink

/-- Why a file was not read: it could not be opened, or what was opened could not be read. -/
inductive ReadError where
  | opening (cause : FileError)
  | reading (cause : FileError)
deriving DecidableEq

def ReadError.cause : ReadError → FileError
  | opening cause | reading cause => cause

class FileStore (m : Type → Type) where
  read : Path → m (Except ReadError Bytes)
  write : Path → Bytes → m (Except FileError Unit)

namespace Volume

/-- The content of a file. A directory can be opened and not read. -/
def read (volume : Volume) (path : Path) : Except ReadError Bytes :=
  match volume.find path with
  | .ok (.file content) => .ok content
  | .ok .directory => .error (.reading .isADirectory)
  | .error cause => .error (.opening cause)

instance : FileStore (StateM Volume) where
  read path volume := (volume.read path, volume)
  write path content volume :=
    match volume.write path content with
    | .ok changed => (.ok (), changed)
    | .error cause => (.error cause, volume)

end Volume
end StackLink
