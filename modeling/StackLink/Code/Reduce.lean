import StackLink.Code
import StackLink.Offset
import StackLink.SymbolTable

/-! # Pass two: references replaced by offsets -/
namespace StackLink.Code

/-- What pass two makes of code. With errors the code only stands in for the right number of bytes. -/
structure Substitution where
  table : SymbolTable
  errors : List CodeError
  code : Code
  size : Nat

def join : Code → Code → Code
  | bytes first, bytes second => .bytes (first ++ second)
  | first, second => .seq first second

/-- Fills in the references of code that starts at `position` and records each label on the way. Deferred
code stays as it is. Every unresolved reference and every label out of range is reported. -/
def substituteAt (position : Int) (table : SymbolTable) : Code → Substitution
  | bytes payload => ⟨table, [], .bytes payload, payload.length⟩
  | ref name =>
    match table.offset? name with
    | some offset => ⟨table, [], .bytes (Bytes.ofOffset offset), refSize⟩
    | none => ⟨table, [.unresolved name], .bytes (List.replicate refSize 0), refSize⟩
  | label name inner =>
    match Offset.ofInt? position with
    | some offset => inner.substituteAt position (table.set name (.defined offset))
    | none =>
      let result := inner.substituteAt position table
      { result with errors := .outOfRange name position :: result.errors }
  | seq first second =>
    let left := first.substituteAt position table
    let right := second.substituteAt (position + left.size) left.table
    ⟨right.table, left.errors ++ right.errors, join left.code right.code, left.size + right.size⟩
  | deferred first second =>
    ⟨table, [], .deferred first second, first.size + second.size⟩

structure Reduced where
  code : Code
  size : Nat
deriving DecidableEq

/-- Reduces code that starts at `position`, which may lie beyond the range of an offset as long as no label
does. -/
def reduceAt (code : Code) (table : SymbolTable) (position : Int) :
    SymbolTable × Except (List CodeError) Reduced :=
  let result := code.substituteAt position table
  match result.errors with
  | [] => (result.table, .ok ⟨result.code, result.size⟩)
  | errors => (result.table, .error errors)

def reduce (code : Code) (table : SymbolTable) (base : Int16) :
    SymbolTable × Except (List CodeError) Reduced :=
  code.reduceAt table base.toInt

end StackLink.Code
