import StackLink.Offset
import StackLink.SymbolTable
import StackLink.Link.Error

/-! # Moving and merging symbol tables -/
namespace StackLink.SymbolTable

def outOfRange (table : SymbolTable) (base : Int) (owner : ModuleName) : List LinkError :=
  table.symbols.filterMap fun symbol =>
    match symbol.binding with
    | .undefined => none
    | .defined offset =>
      match Offset.ofInt? (base + offset.toInt) with
      | some _ => none
      | none => some (.outOfRange symbol.name owner (base + offset.toInt) .merge)

def moved (base : Int) : Binding → Binding
  | .undefined => .undefined
  | .defined offset => .defined (Int16.ofInt (base + offset.toInt))

/-- The table with each definition `base` bytes further on, if all of them stay in range. -/
def relocate (table : SymbolTable) (base : Int) (owner : ModuleName) : Except (List LinkError) SymbolTable :=
  match table.outOfRange base owner with
  | [] => .ok ⟨table.entries.map fun _ entry => { entry with binding := moved base entry.binding }⟩
  | errors => .error errors

/-- Takes a symbol over from a module. The first definition of a name stays, and another one is reported. A mention
adds a name that is not known. -/
def absorb (owner : ModuleName) : SymbolTable × List LinkError → Symbol → SymbolTable × List LinkError
  | (table, errors), symbol =>
    match symbol.binding, table.get? symbol.name with
    | .defined _, some ⟨_, .defined _⟩ =>
      let first := (table.definer? symbol.name).getD "an earlier module"
      (table, errors ++ [.multipleDefinition symbol.name first owner])
    | .defined offset, _ => (table.define symbol.name offset owner, errors)
    | .undefined, none => (table.set symbol.name .undefined, errors)
    | .undefined, some _ => (table, errors)

/-- Takes over the symbols of a module's table in their order, and reports the names that both tables define. -/
def combine (table other : SymbolTable) (owner : ModuleName) : SymbolTable × List LinkError :=
  other.symbols.foldl (absorb owner) (table, [])

def merge (table other : SymbolTable) (owner : ModuleName) : SymbolTable :=
  (table.combine other owner).1

def collisions (table other : SymbolTable) (owner : ModuleName) : List LinkError :=
  (table.combine other owner).2

end StackLink.SymbolTable
