import StackLink.Module
import StackLink.SymbolTable.Merge

/-! # Linking modules into an image -/
namespace StackLink

structure Placement where
  owner : ModuleName
  base : Nat
  size : Nat
deriving DecidableEq

structure Image where
  bytes : Bytes
  symbols : SymbolTable
  placements : List Placement
deriving DecidableEq

/-- A module with its symbols, counted from its own start, and its place. -/
structure PlacedModule where
  module : Module
  symbols : SymbolTable
  base : Nat
  size : Nat

def PlacedModule.placement (placed : PlacedModule) : Placement :=
  ⟨placed.module.name, placed.base, placed.size⟩

namespace Link

/-- Measures modules and places each after those before it. A module that cannot be measured takes no room. -/
def placeFrom (base : Nat) : List Module → List PlacedModule × List LinkError
  | [] => ([], [])
  | m :: rest =>
    match m.measure with
    | .ok (symbols, size) =>
      let (placed, errors) := placeFrom (base + size) rest
      (⟨m, symbols, base, size⟩ :: placed, errors)
    | .error e =>
      let (placed, errors) := placeFrom base rest
      (placed, e :: errors)

def place (modules : List Module) : Except LinkFailure (List PlacedModule) :=
  let (placed, errors) := placeFrom 0 modules
  unlessErrors errors placed

def absolute (placed : PlacedModule) : Except (List LinkError) SymbolTable :=
  placed.symbols.relocate placed.base placed.module.name

/-- Merges the symbols of placed modules into a table. A module with symbols out of range is left out. -/
def mergeFrom (table : SymbolTable) : List PlacedModule → SymbolTable × List LinkError
  | [] => (table, [])
  | placed :: rest =>
    match absolute placed with
    | .ok symbols =>
      let (merged, collisions) := table.combine symbols placed.module.name
      let (final, errors) := mergeFrom merged rest
      (final, collisions ++ errors)
    | .error outOfRange =>
      let (final, errors) := mergeFrom table rest
      (final, outOfRange ++ errors)

def mergeTables (placed : List PlacedModule) : Except LinkFailure SymbolTable :=
  let (table, errors) := mergeFrom .empty placed
  unlessErrors errors table

def fillFrom (table : SymbolTable) : List PlacedModule → SymbolTable × Bytes × List LinkError
  | [] => (table, [], [])
  | placed :: rest =>
    match placed.module.code.release.reduceAt table placed.base with
    | (table, .ok reduced) =>
      let (final, bytes, errors) := fillFrom table rest
      (final, reduced.code.content?.getD [] ++ bytes, errors)
    | (table, .error unresolved) =>
      let (final, bytes, errors) := fillFrom table rest
      (final, bytes, unresolved.map (CodeError.inModule placed.module.name .substitute) ++ errors)

end Link

/-- Links modules into one image, in their order. A phase with errors ends the link and reports them all. -/
def link (modules : List Module) : Except LinkFailure Image := do
  let placed ← Link.place modules
  let table ← Link.mergeTables placed
  let (symbols, bytes, errors) := Link.fillFrom table placed
  unlessErrors errors ⟨bytes, symbols, placed.map PlacedModule.placement⟩

namespace Link

def mentionedNames (modules : List Module) : List SymbolName :=
  (modules.flatMap fun m => m.manifest.map Symbol.name ++ m.code.symbolNames).eraseDups

def deferredCode : List Module → Code
  | [] => .bytes []
  | m :: rest => rest.foldl (fun code next => .deferred code next.code) m.code

end Link

/-- Combines modules into one without filling in any reference. -/
def partialLink (name : ModuleName) (modules : List Module) : Except LinkFailure Module := do
  let placed ← Link.place modules
  let table ← Link.mergeTables placed
  .ok ⟨name, table.listing (Link.mentionedNames modules), Link.deferredCode modules⟩

namespace Image

private def row (first second third : String) : String :=
  Text.padRight 20 first ++ " " ++ Text.padLeft 6 second ++ " " ++ Text.padLeft 6 third ++ "\n"

def map (image : Image) : String :=
  let modules := image.placements.foldl
    (fun text p => text ++ row p.owner (toString p.base) (toString p.size)) (row "MODULE" "BASE" "SIZE")
  modules ++ "\n" ++ Text.padRight 20 "SYMBOL" ++ " " ++ Text.padLeft 6 "OFFSET" ++ "\n" ++ image.symbols.text

end Image
end StackLink
