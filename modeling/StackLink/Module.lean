import StackLink.Code.Measure
import StackLink.Code.Reduce
import StackLink.Manifest

/-! # Object modules -/
namespace StackLink

structure Module where
  name : ModuleName
  manifest : Manifest
  code : Code
deriving DecidableEq

def SymbolTable.listing (table : SymbolTable) (names : List SymbolName) : Manifest :=
  names.map fun name => ⟨name, .ofOffset? (table.offset? name)⟩

def CodeError.inModule (owner : ModuleName) (phase : Phase) : CodeError → LinkError
  | unresolved name => .unresolved name owner
  | outOfRange name offset => .outOfRange name owner offset phase

namespace Module

/-- The module of some code. Its manifest lists what the code mentions, by first appearance. -/
def ofCode (name : ModuleName) (code : Code) : Except CodeError Module :=
  match code.measure 0 .empty with
  | (table, .ok _) => .ok ⟨name, table.listing code.symbolNames, code⟩
  | (_, .error e) => .error e

def measureCode (m : Module) : Except LinkError (SymbolTable × Nat) :=
  match m.code.measure 0 .empty with
  | (table, .ok size) => .ok (table, size)
  | (_, .error e) => .error (e.inModule m.name .measure)

/-- The symbols of the module, from its start, and its size. What the code defines overrides the manifest. -/
def measure (m : Module) : Except LinkError (SymbolTable × Nat) :=
  match measureCode m with
  | .ok (table, size) => .ok ((SymbolTable.ofSymbols m.manifest).setAll table.symbols, size)
  | .error e => .error e

/-- A manifest entry whose offset the code contradicts. -/
structure Disagreement where
  name : SymbolName
  listed : Int16
  actual : Int16
deriving DecidableEq

def disagreements (m : Module) : List Disagreement :=
  match measureCode m with
  | .error _ => []
  | .ok (table, _) =>
    m.manifest.filterMap fun symbol =>
      match symbol.offset?, table.offset? symbol.name with
      | some listed, some actual => if listed = actual then none else some ⟨symbol.name, listed, actual⟩
      | _, _ => none

/-- The module with the references of its code filled in, as far as its code is not deferred. -/
def resolve (m : Module) (table : SymbolTable) (base : Int16) :
    SymbolTable × Except (List CodeError) Module :=
  match m.code.reduce table base with
  | (table, .ok reduced) => (table, .ok { m with code := reduced.code })
  | (table, .error errors) => (table, .error errors)

end Module
end StackLink
