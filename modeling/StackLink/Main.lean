import StackLink.Command.Programs

/-! # The command line: `link` and `disassemble` over the files of the system -/
namespace StackLink

private def FileError.ofSystem (error : IO.Error) : FileError :=
  match error with
  | .noFileOrDirectory .. => .notFound
  | .inappropriateType (some _) 20 _ | .inappropriateType none 20 _ => .notADirectory
  | .inappropriateType (some _) 21 _ | .inappropriateType none 21 _ => .isADirectory
  | unknown => .other (toString unknown)

private def systemPath (path : Path) : Except FileError String :=
  match Bytes.toText? path with
  | some text => if path.contains 0 then .error .nulInName else .ok text
  | none => .error .notFound

instance : FileStore IO where
  read path := do
    match systemPath path with
    | .error cause => return .error (.opening cause)
    | .ok name =>
      try
        let content ← IO.FS.readBinFile name
        return .ok content.data.toList
      catch error =>
        match FileError.ofSystem error with
        | .isADirectory => return .error (.reading .isADirectory)
        | cause => return .error (.opening cause)
  write path content := do
    match systemPath path with
    | .error cause => return .error cause
    | .ok name =>
      try
        IO.FS.writeBinFile name ⟨content.toArray⟩
        return .ok ()
      catch error => return .error (FileError.ofSystem error)

private def usage : String :=
  Command.Linker.usage ++ Command.Disassembler.usage

private def runCommand (words : List String) : IO Command.Exit :=
  match words with
  | "link" :: rest => Command.Linker.run (rest.map Bytes.ofText)
  | "disassemble" :: rest => Command.Disassembler.run (rest.map Bytes.ofText)
  | _ => return ⟨2, "", usage⟩

def runMain (words : List String) : IO UInt32 := do
  let exit ← runCommand words
  IO.print exit.stdout
  IO.eprint exit.stderr
  return UInt32.ofNat exit.code

end StackLink

def main (words : List String) : IO UInt32 :=
  StackLink.runMain words
