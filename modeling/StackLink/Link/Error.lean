import StackLink.Symbol
import StackLink.Text.Quoted

/-! # What can go wrong in a link -/
namespace StackLink

inductive Phase where
  /-- reading modules and their manifests -/
  | load
  /-- finding the size and the labels of each module -/
  | measure
  /-- combining the tables of the modules -/
  | merge
  /-- replacing references by offsets -/
  | substitute
deriving DecidableEq

def Phase.name : Phase → String
  | load => "load"
  | measure => "measure"
  | merge => "merge"
  | substitute => "substitute"

inductive LinkError where
  | malformedManifest (owner : ModuleName) (lineNumber : Nat) (line : String)
  | multipleDefinition (name : SymbolName) (first second : ModuleName)
  | unresolved (name : SymbolName) (owner : ModuleName)
  | outOfRange (name : SymbolName) (owner : ModuleName) (offset : Int) (phase : Phase)
deriving DecidableEq

namespace LinkError

def phase : LinkError → Phase
  | malformedManifest .. => .load
  | multipleDefinition .. => .merge
  | unresolved .. => .substitute
  | outOfRange _ _ _ phase => phase

def symbol? : LinkError → Option SymbolName
  | malformedManifest .. => none
  | multipleDefinition name _ _ | unresolved name _ | outOfRange name _ _ _ => some name

def message : LinkError → String
  | malformedManifest owner lineNumber line =>
    s!"{owner}: manifest line {lineNumber} is not a symbol definition or reference: {Text.quoted line}"
  | multipleDefinition name first second =>
    s!"symbol {name} is defined in both {first} and {second}"
  | unresolved name owner => s!"{owner}: undefined reference to {name}"
  | outOfRange name owner offset _ =>
    s!"{owner}: symbol {name} would be at offset {offset}, which does not fit in 16 bits"

end LinkError

def LinkError.listing (heading : String) (errors : List LinkError) : String :=
  errors.foldl (fun text e => text ++ "\n  " ++ e.message) heading

/-- A link that failed, with every error of the phase that stopped it. -/
structure LinkFailure where
  errors : List LinkError
deriving DecidableEq

namespace LinkFailure

def phase? (failure : LinkFailure) : Option Phase :=
  failure.errors.head?.map LinkError.phase

def message (failure : LinkFailure) : String :=
  match failure.phase? with
  | some phase => LinkError.listing s!"link failed during {phase.name} phase:" failure.errors
  | none => "link failed"

end LinkFailure

def unlessErrors {α : Type} (errors : List LinkError) (value : α) : Except LinkFailure α :=
  match errors with
  | [] => .ok value
  | _ :: _ => .error ⟨errors⟩

end StackLink
