import StackLink.Symbol
import StackLink.Text.Blank
import StackLink.Text.Layout
import StackLink.Text.Numeral
import StackLink.Link.Error

/-! # Manifests: the symbols that a module lists -/
namespace StackLink

abbrev Manifest := List Symbol

namespace Manifest

def line (symbol : Symbol) : String :=
  match symbol.binding with
  | .defined offset => s!"\t{symbol.name} D {offset.toInt}\n"
  | .undefined => s!"\t{symbol.name}U\n"

def text (manifest : Manifest) : String :=
  manifest.foldl (fun text symbol => text ++ line symbol) ""

/-- The symbol that the words of a line denote: a name, `D` and an offset, or a name that `U` follows at once. -/
def symbolOfWords? : List (List Char) → Option Symbol
  | [name, ['D'], number] =>
    ((Numeral.signed? number).bind Offset.ofInt?).map fun offset => ⟨String.ofList name, .defined offset⟩
  | [word] =>
    if word.getLast? = some 'U' ∧ word.dropLast ≠ [] then
      some ⟨String.ofList word.dropLast, .undefined⟩
    else none
  | _ => none

def readLine (owner : ModuleName) (number : Nat) (line : List Char) :
    Option (Except LinkError Symbol) :=
  match Text.words line with
  | [] => none
  | words =>
    match symbolOfWords? words with
    | some symbol => some (.ok symbol)
    | none => some (.error (.malformedManifest owner number (String.ofList line)))

/-- Reads the text of a manifest. Blank lines are skipped; all malformed lines are reported, with their
numbers counted from one. -/
def parse (owner : ModuleName) (text : String) : Except (List LinkError) Manifest :=
  let outcomes := ((Text.lines text.toList).zipIdx 1).filterMap fun (line, number) =>
    readLine owner number line
  let errors := outcomes.filterMap fun outcome =>
    match outcome with
    | .ok _ => none
    | .error e => some e
  match errors with
  | [] => .ok (outcomes.filterMap Except.toOption)
  | errors => .error errors

end Manifest
end StackLink
