import StackLink.Assembly
import StackLink.Link

/-! # What operations report as they run -/
namespace StackLink

inductive Level where
  | warn | info | debug | trace
deriving DecidableEq

def Level.name : Level → String
  | warn => "WARN"
  | info => "INFO"
  | debug => "DEBUG"
  | trace => "TRACE"

inductive Event where
  | assembled (name : ModuleName) (statements size labels : Nat)
  | read (name : ModuleName) (symbols : Nat)
  | disagreement (owner : ModuleName) (entry : Module.Disagreement)
  | measured (name : ModuleName) (size symbols : Nat)
  | placing (placement : Placement)
  | defines (owner : ModuleName) (name : SymbolName) (offset : Int16)
  | linked (modules bytes symbols : Nat)
  | combined (name : ModuleName) (modules size symbols : Nat)
deriving DecidableEq

namespace Event

def level : Event → Level
  | disagreement .. => .warn
  | linked .. => .info
  | defines .. => .trace
  | assembled .. | read .. | measured .. | placing .. | combined .. => .debug

def message : Event → String
  | assembled name statements size labels =>
    s!"assembled {statements} statements of {name} into {size} bytes with {labels} labels"
  | read name symbols => s!"read module {name} with {symbols} symbols"
  | disagreement owner ⟨name, listed, actual⟩ =>
    s!"{owner}: manifest says {name} is at {listed.toInt} but the code defines it at {actual.toInt}; " ++
      "using the code's definition"
  | measured name size symbols => s!"module {name} is {size} bytes and has {symbols} symbols"
  | placing ⟨owner, base, size⟩ => s!"placing module {owner} ({size} bytes) at {base}"
  | defines owner name offset => s!"{owner} defines {name} at {offset.toInt}"
  | linked modules bytes symbols =>
    s!"linked {modules} modules into {bytes} bytes defining {symbols} symbols"
  | combined name modules size symbols =>
    s!"partially linked {modules} modules into {name} ({size} bytes, {symbols} symbols)"

end Event

def assembleEvents (name : ModuleName) (statements : List Statement) : List Event :=
  let state := Assembly.run statements
  if state.errors.isEmpty then
    [.assembled name statements.length state.code.size state.labels.size]
  else []

/-- The events of `SymbolTable.merge`: each definition that the table takes over. -/
def SymbolTable.mergeEvents (table other : SymbolTable) (owner : ModuleName) : List Event :=
  other.symbols.filterMap fun symbol =>
    match symbol.binding, table.offset? symbol.name with
    | .defined offset, none => some (.defines owner symbol.name offset)
    | _, _ => none

def Module.measureEvents (m : Module) : List Event :=
  match m.measure with
  | .ok (symbols, size) =>
    m.disagreements.map (Event.disagreement m.name) ++ [.measured m.name size symbols.size]
  | .error _ => []

namespace Link

def placeEvents (base : Nat) : List Module → List Event
  | [] => []
  | m :: rest =>
    match m.measure with
    | .ok (_, size) => m.measureEvents ++ .placing ⟨m.name, base, size⟩ :: placeEvents (base + size) rest
    | .error _ => placeEvents base rest

def mergeTablesEvents (table : SymbolTable) : List PlacedModule → List Event
  | [] => []
  | placed :: rest =>
    match absolute placed with
    | .ok symbols =>
      let name := placed.module.name
      table.mergeEvents symbols name ++ mergeTablesEvents (table.merge symbols name) rest
    | .error _ => mergeTablesEvents table rest

private def layoutEvents (modules : List Module) : List Event :=
  placeEvents 0 modules ++
    match place modules with
    | .ok placed => mergeTablesEvents .empty placed
    | .error _ => []

end Link

def linkEvents (modules : List Module) : List Event :=
  Link.layoutEvents modules ++
    match link modules with
    | .ok image => [.linked modules.length image.bytes.length image.symbols.size]
    | .error _ => []

def partialLinkEvents (name : ModuleName) (modules : List Module) : List Event :=
  Link.layoutEvents modules ++
    match partialLink name modules with
    | .ok combined => [.combined name modules.length combined.code.size combined.manifest.length]
    | .error _ => []

end StackLink
