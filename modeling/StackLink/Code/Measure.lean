import StackLink.Code
import StackLink.Offset
import StackLink.SymbolTable

/-! # Pass one: the size of code and the offsets of its labels -/
namespace StackLink.Code

/-- Measures code that starts at `position`, recording each label in the table. The first label out
of range ends the pass; what was recorded before it stays. -/
def measureAt (position : Int) (table : SymbolTable) : Code → SymbolTable × Except CodeError Nat
  | bytes payload => (table, .ok payload.length)
  | ref _ => (table, .ok refSize)
  | label name inner =>
    match Offset.ofInt? position with
    | some offset => inner.measureAt position (table.set name (.defined offset))
    | none => (table, .error (.outOfRange name position))
  | seq first second | deferred first second =>
    match first.measureAt position table with
    | (table, .error e) => (table, .error e)
    | (table, .ok firstSize) =>
      match second.measureAt (position + firstSize) table with
      | (table, .error e) => (table, .error e)
      | (table, .ok secondSize) => (table, .ok (firstSize + secondSize))

def measure (code : Code) (base : Int16) (table : SymbolTable) : SymbolTable × Except CodeError Nat :=
  code.measureAt base.toInt table

end StackLink.Code
