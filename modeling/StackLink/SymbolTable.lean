import Std.Data.ExtTreeMap
import StackLink.Symbol
import StackLink.Text.Layout

/-! # Symbol tables -/
namespace StackLink

/-- What a table holds for a name: its binding and, once tables have been merged, the module that
supplied its definition. -/
structure SymbolTable.Entry where
  binding : Binding
  definer : Option ModuleName
deriving DecidableEq

/-- A finite map from names, in the order of their code points. -/
structure SymbolTable where
  entries : Std.ExtTreeMap SymbolName SymbolTable.Entry

namespace SymbolTable

@[ext] theorem ext {s t : SymbolTable} (h : ∀ name : SymbolName, s.entries[name]? = t.entries[name]?) :
    s = t := by
  cases s
  cases t
  congr
  exact Std.ExtTreeMap.ext_getElem? h

instance : DecidableEq SymbolTable := fun s t =>
  if h : s.entries.toList = t.entries.toList then
    .isTrue (by
      cases s
      cases t
      congr
      exact Std.ExtTreeMap.ext_toList (h ▸ .refl _))
  else .isFalse fun e => h (e ▸ rfl)

def empty : SymbolTable := ⟨∅⟩

def size (table : SymbolTable) : Nat := table.entries.size

def isEmpty (table : SymbolTable) : Bool := table.entries.isEmpty

def get? (table : SymbolTable) (name : SymbolName) : Option Symbol :=
  table.entries[name]?.map fun entry => ⟨name, entry.binding⟩

def offset? (table : SymbolTable) (name : SymbolName) : Option Int16 :=
  table.entries[name]?.bind fun entry => entry.binding.offset?

def definer? (table : SymbolTable) (name : SymbolName) : Option ModuleName :=
  table.entries[name]?.bind Entry.definer

def symbols (table : SymbolTable) : List Symbol :=
  table.entries.toList.map fun (name, entry) => ⟨name, entry.binding⟩

def undefinedNames (table : SymbolTable) : List SymbolName :=
  (table.symbols.filter fun symbol => symbol.binding = .undefined).map Symbol.name

/-- Binds a name anew. Its definer stays as it was. -/
def set (table : SymbolTable) (name : SymbolName) (binding : Binding) : SymbolTable :=
  ⟨table.entries.insert name ⟨binding, table.definer? name⟩⟩

def define (table : SymbolTable) (name : SymbolName) (offset : Int16) (definer : ModuleName) : SymbolTable :=
  ⟨table.entries.insert name ⟨.defined offset, some definer⟩⟩

def setAll (table : SymbolTable) (symbols : List Symbol) : SymbolTable :=
  symbols.foldl (fun table symbol => table.set symbol.name symbol.binding) table

/-- The table of a list of symbols, of which a later one replaces an earlier one of its name. -/
def ofSymbols (symbols : List Symbol) : SymbolTable :=
  empty.setAll symbols

@[simp] theorem getElem?_set (table : SymbolTable) (name other : SymbolName) (binding : Binding) :
    (table.set name binding).entries[other]? =
      if name = other then some ⟨binding, table.definer? name⟩ else table.entries[other]? := by
  simp [set, Std.ExtTreeMap.getElem?_insert]

@[simp] theorem getElem?_define (table : SymbolTable) (name other : SymbolName) (offset : Int16)
    (definer : ModuleName) :
    (table.define name offset definer).entries[other]? =
      if name = other then some ⟨.defined offset, some definer⟩ else table.entries[other]? := by
  simp [define, Std.ExtTreeMap.getElem?_insert]

private def line (name : SymbolName) (entry : Entry) : String :=
  let row (value : String) : String := Text.padRight 20 name ++ " " ++ Text.padLeft 6 value
  match entry.binding, entry.definer with
  | .defined offset, some definer => row (toString offset.toInt) ++ "  " ++ definer ++ "\n"
  | .defined offset, none => row (toString offset.toInt) ++ "\n"
  | .undefined, _ => row "U" ++ "\n"

def text (table : SymbolTable) : String :=
  table.entries.toList.foldl (fun text (name, entry) => text ++ line name entry) ""

end SymbolTable
end StackLink
