import StackLink.Command.Arguments
import StackLink.Files.Link
import StackLink.Listing

/-! # The linker and the disassembler as commands -/
namespace StackLink.Command

/-- What a command leaves behind besides files. -/
structure Exit where
  code : Nat
  stdout : String
  stderr : String
deriving DecidableEq

private def rejected (usage : String) : Exit := ⟨2, "", usage⟩

private def failed (printed message : String) : Exit := ⟨1, printed, message ++ "\n"⟩

def version : String := "0.1.0\n"

variable {m : Type → Type} [Monad m] [FileStore m]

namespace Linker

def usage : String :=
  "usage: link [--map] [-r|--partial] -o|--output OUTPUT INPUT...\n"

private def specs : List OptionSpec :=
  [⟨"output", some 0x6F, true⟩, ⟨"map", none, false⟩, ⟨"partial", some 0x72, false⟩]

def run (words : List Bytes) : m Exit := do
  match parse specs none words with
  | .rejected => return rejected usage
  | .help => return ⟨0, usage, ""⟩
  | .version => return ⟨0, version, ""⟩
  | .accepted ⟨flags, values, inputs⟩ =>
    match inputs, values.lookup "output" with
    | _ :: _, some output =>
      let report ← Files.linkFiles inputs output ⟨flags.contains "map", flags.contains "partial"⟩
      match report.result with
      | .ok () => return ⟨0, report.printed, ""⟩
      | .error failure => return failed report.printed failure.message
    | _, _ => return rejected usage

end Linker

namespace Disassembler

def usage : String :=
  "usage: disassemble IMAGE\n"

def run (words : List Bytes) : m Exit := do
  match parse [] (some 1) words with
  | .rejected => return rejected usage
  | .help => return ⟨0, usage, ""⟩
  | .version => return ⟨0, version, ""⟩
  | .accepted ⟨_, _, inputs⟩ =>
    match inputs with
    | [path] =>
      match ← FileStore.read path with
      | .error (.opening cause) => return failed "" s!"failed to open input file: {cause.message}"
      | .error (.reading cause) => return failed "" cause.message
      | .ok image =>
        let listing := Listing.ofImage image
        match listing.stop with
        | some stop => return failed listing.text stop.message
        | none => return ⟨0, listing.text, ""⟩
    | _ => return rejected usage

end Disassembler
end StackLink.Command
