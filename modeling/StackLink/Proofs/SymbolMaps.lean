import StackLink.Proofs.Merge
import StackLink.Code.Measure
import StackLink.Code.Reduce

/-!
# Symbol tables in two maps

The symbols of a table, each with its own name in it, and the modules that supplied definitions can be kept in two maps
that are written at different times. Maps that the operations have written represent a table, and every operation on the
maps does what it does to the table. Only in the middle of a move do the two maps part.
-/
namespace StackLink

/-- The symbols under their names, and apart from them the modules that supplied definitions. Nothing says that the two
maps fit together. -/
structure SymbolMaps where
  symbols : Std.ExtTreeMap SymbolName Symbol
  definers : Std.ExtTreeMap SymbolName ModuleName

namespace SymbolMaps

def empty : SymbolMaps := ⟨∅, ∅⟩

def size (maps : SymbolMaps) : Nat := maps.symbols.size

def get? (maps : SymbolMaps) (name : SymbolName) : Option Symbol := maps.symbols[name]?

def definer? (maps : SymbolMaps) (name : SymbolName) : Option ModuleName := maps.definers[name]?

def listed (maps : SymbolMaps) : List Symbol :=
  maps.symbols.toList.map Prod.snd

def set (maps : SymbolMaps) (name : SymbolName) (binding : Binding) : SymbolMaps :=
  { maps with symbols := maps.symbols.insert name ⟨name, binding⟩ }

def define (maps : SymbolMaps) (name : SymbolName) (offset : Int16) (definer : ModuleName) : SymbolMaps :=
  { maps.set name (.defined offset) with definers := maps.definers.insert name definer }

def setAll (maps : SymbolMaps) (symbols : List Symbol) : SymbolMaps :=
  symbols.foldl (fun maps symbol => maps.set symbol.name symbol.binding) maps

def ofSymbols (symbols : List Symbol) : SymbolMaps :=
  empty.setAll symbols

/-- Moves one symbol by `base`, unless it would leave the range of offsets. -/
def move (base : Int) (owner : ModuleName) : SymbolMaps × List LinkError → Symbol → SymbolMaps × List LinkError
  | (maps, errors), symbol =>
    match symbol.binding with
    | .undefined => (maps.set symbol.name .undefined, errors)
    | .defined offset =>
      match Offset.ofInt? (base + offset.toInt) with
      | some moved => (maps.set symbol.name (.defined moved), errors)
      | none => (maps, errors ++ [.outOfRange symbol.name owner (base + offset.toInt) .merge])

/-- The definers are taken over at once, and then the symbols one by one. -/
def moveAll (maps : SymbolMaps) (base : Int) (owner : ModuleName) : SymbolMaps × List LinkError :=
  maps.listed.foldl (move base owner) (⟨∅, maps.definers⟩, [])

def relocate (maps : SymbolMaps) (base : Int) (owner : ModuleName) : Except (List LinkError) SymbolMaps :=
  if (maps.moveAll base owner).2 = [] then .ok (maps.moveAll base owner).1 else .error (maps.moveAll base owner).2

def absorb (owner : ModuleName) : SymbolMaps × List LinkError → Symbol → SymbolMaps × List LinkError
  | (maps, errors), symbol =>
    match symbol.binding, maps.get? symbol.name with
    | .defined _, some ⟨_, .defined _⟩ =>
      let first := (maps.definer? symbol.name).getD "an earlier module"
      (maps, errors ++ [.multipleDefinition symbol.name first owner])
    | .defined offset, _ => (maps.define symbol.name offset owner, errors)
    | .undefined, none => (maps.set symbol.name .undefined, errors)
    | .undefined, some _ => (maps, errors)

def combine (maps other : SymbolMaps) (owner : ModuleName) : SymbolMaps × List LinkError :=
  other.listed.foldl (absorb owner) (maps, [])

def measureAt (position : Int) (maps : SymbolMaps) : Code → SymbolMaps × Except CodeError Nat
  | .bytes payload => (maps, .ok payload.length)
  | .ref _ => (maps, .ok Code.refSize)
  | .label name inner =>
    match Offset.ofInt? position with
    | some offset => measureAt position (maps.set name (.defined offset)) inner
    | none => (maps, .error (.outOfRange name position))
  | .seq first second | .deferred first second =>
    match measureAt position maps first with
    | (maps, .error e) => (maps, .error e)
    | (maps, .ok firstSize) =>
      match measureAt (position + firstSize) maps second with
      | (maps, .error e) => (maps, .error e)
      | (maps, .ok secondSize) => (maps, .ok (firstSize + secondSize))

/-- Pass two, with the errors found before added to. -/
def substituteAt (position : Int) (maps : SymbolMaps) (errors : List CodeError) :
    Code → SymbolMaps × List CodeError × Code.Reduced
  | .bytes payload => (maps, errors, ⟨.bytes payload, payload.length⟩)
  | .ref name =>
    match maps.get? name with
    | some ⟨_, .defined offset⟩ => (maps, errors, ⟨.bytes (Bytes.ofOffset offset), Code.refSize⟩)
    | some ⟨_, .undefined⟩ | none =>
      (maps, errors ++ [.unresolved name], ⟨.bytes (List.replicate Code.refSize 0), Code.refSize⟩)
  | .label name inner =>
    match Offset.ofInt? position with
    | some offset => substituteAt position (maps.set name (.defined offset)) errors inner
    | none => substituteAt position maps (errors ++ [.outOfRange name position]) inner
  | .seq first second =>
    let (maps, errors, left) := substituteAt position maps errors first
    let (maps, errors, right) := substituteAt (position + left.size) maps errors second
    (maps, errors, ⟨.join left.code right.code, left.size + right.size⟩)
  | .deferred first second => (maps, errors, ⟨.deferred first second, first.size + second.size⟩)

def reduceAt (position : Int) (maps : SymbolMaps) (code : Code) :
    SymbolMaps × Except (List CodeError) Code.Reduced :=
  let (maps, errors, reduced) := substituteAt position maps [] code
  if errors = [] then (maps, .ok reduced) else (maps, .error errors)

/-- The maps give the symbol and the definer of each name as the table does. -/
structure Represents (maps : SymbolMaps) (table : SymbolTable) : Prop where
  get? : ∀ name, maps.get? name = table.get? name
  definer? : ∀ name, maps.definer? name = table.definer? name

@[simp] theorem get?_set (maps : SymbolMaps) (name other : SymbolName) (binding : Binding) :
    (maps.set name binding).get? other = if name = other then some ⟨name, binding⟩ else maps.get? other := by
  simp [get?, set, Std.ExtTreeMap.getElem?_insert]

@[simp] theorem definer?_set (maps : SymbolMaps) (name other : SymbolName) (binding : Binding) :
    (maps.set name binding).definer? other = maps.definer? other := rfl

@[simp] theorem get?_define (maps : SymbolMaps) (name other : SymbolName) (offset : Int16) (owner : ModuleName) :
    (maps.define name offset owner).get? other =
      if name = other then some ⟨name, .defined offset⟩ else maps.get? other :=
  get?_set maps name other (.defined offset)

@[simp] theorem definer?_define (maps : SymbolMaps) (name other : SymbolName) (offset : Int16) (owner : ModuleName) :
    (maps.define name offset owner).definer? other = if name = other then some owner else maps.definer? other := by
  simp [definer?, define, Std.ExtTreeMap.getElem?_insert]

namespace Represents

theorem empty : Represents .empty .empty := by
  refine ⟨?_, ?_⟩
  · intro name
    simp [SymbolMaps.get?, SymbolMaps.empty, SymbolTable.get?_eq]
  · intro name
    simp [SymbolMaps.definer?, SymbolMaps.empty]

variable {maps : SymbolMaps} {table : SymbolTable} (h : Represents maps table)
include h

theorem named {name : SymbolName} {symbol : Symbol} (hsymbol : maps.get? name = some symbol) : symbol.name = name := by
  rw [h.get?, SymbolTable.get?_eq] at hsymbol
  obtain ⟨binding, -, rfl⟩ := Option.map_eq_some_iff.mp hsymbol
  rfl

theorem known {name : SymbolName} {owner : ModuleName} (howner : maps.definer? name = some owner) :
    ∃ symbol, maps.get? name = some symbol := by
  rw [h.definer?, SymbolTable.definer?] at howner
  obtain ⟨entry, hentry, -⟩ := Option.bind_eq_some_iff.mp howner
  rw [h.get?, SymbolTable.get?, hentry]
  exact ⟨_, rfl⟩

/-- Each symbol carries the name that it is kept under, so that both lists are in the same order. -/
theorem listed_eq : maps.listed = table.symbols := by
  have hentries : table.entries = maps.symbols.map fun name symbol => ⟨symbol.binding, maps.definer? name⟩ := by
    apply Std.ExtTreeMap.ext_getElem?
    intro name
    have hget : maps.symbols[name]? = table.get? name := h.get? name
    rw [Std.ExtTreeMap.getElem?_map, hget, h.definer?, SymbolTable.get?_eq, SymbolTable.getElem?_eq, Option.map_map]
    rfl
  rw [SymbolTable.symbols, hentries, Std.ExtTreeMap.toList_map, List.map_map, listed]
  apply List.map_congr_left
  intro pair hpair
  have hname := h.named (Std.ExtTreeMap.mem_toList_iff_getElem?_eq_some.mp hpair)
  rw [Function.comp_apply, ← hname]

theorem set (name : SymbolName) (binding : Binding) : Represents (maps.set name binding) (table.set name binding) := by
  refine ⟨?_, ?_⟩
  · intro other
    rw [get?_set, h.get?, SymbolTable.get?_eq, SymbolTable.get?_eq, SymbolTable.binding?_set]
    by_cases hother : name = other <;> simp [hother]
  · intro other
    rw [definer?_set, SymbolTable.definer?_set, h.definer?]

theorem define (name : SymbolName) (offset : Int16) (owner : ModuleName) :
    Represents (maps.define name offset owner) (table.define name offset owner) := by
  refine ⟨?_, ?_⟩
  · intro other
    rw [get?_define, h.get?, SymbolTable.get?_eq, SymbolTable.get?_eq, SymbolTable.binding?_define]
    by_cases hother : name = other <;> simp [hother]
  · intro other
    rw [definer?_define, SymbolTable.definer?_define, h.definer?]

theorem unique {other : SymbolMaps} (hother : Represents other table) : maps = other := by
  obtain ⟨symbols, definers⟩ := maps
  obtain ⟨symbols', definers'⟩ := other
  have hsymbols : symbols = symbols' :=
    Std.ExtTreeMap.ext_getElem? fun name => (h.get? name).trans (hother.get? name).symm
  have hdefiners : definers = definers' :=
    Std.ExtTreeMap.ext_getElem? fun name => (h.definer? name).trans (hother.definer? name).symm
  rw [hsymbols, hdefiners]

theorem setAll (symbols : List Symbol) : Represents (maps.setAll symbols) (table.setAll symbols) := by
  induction symbols generalizing maps table with
  | nil => exact h
  | cons symbol rest ih => exact ih (h.set symbol.name symbol.binding)

end Represents

def outlier? (base : Int) (owner : ModuleName) (symbol : Symbol) : Option LinkError :=
  symbol.offset?.bind fun offset =>
    if Offset.Fits (base + offset.toInt) then none
    else some (.outOfRange symbol.name owner (base + offset.toInt) .merge)

private theorem move_of_outlier? {base : Int} {owner : ModuleName} {symbol : Symbol} {error : LinkError}
    (h : outlier? base owner symbol = some error) (state : SymbolMaps × List LinkError) :
    move base owner state symbol = (state.1, state.2 ++ [error]) := by
  obtain ⟨name, binding⟩ := symbol
  obtain ⟨offset, hoffset, herror⟩ := Option.bind_eq_some_iff.mp h
  cases binding with
  | undefined => cases hoffset
  | defined found =>
    cases hoffset
    by_cases hfits : Offset.Fits (base + offset.toInt)
    · rw [if_pos hfits] at herror
      cases herror
    · rw [if_neg hfits] at herror
      cases herror
      simp only [move, Offset.ofInt?_of_not_fits hfits]

private theorem move_of_fits {base : Int} {owner : ModuleName} {symbol : Symbol} (h : outlier? base owner symbol = none)
    (state : SymbolMaps × List LinkError) :
    move base owner state symbol = (state.1.set symbol.name (SymbolTable.moved base symbol.binding), state.2) := by
  obtain ⟨name, binding⟩ := symbol
  cases binding with
  | undefined => rfl
  | defined offset =>
    by_cases hfits : Offset.Fits (base + offset.toInt)
    · simp only [move, Offset.ofInt?_of_fits hfits, SymbolTable.moved]
    · simp [outlier?, Symbol.offset?, Binding.offset?, hfits] at h

private theorem snd_foldl_move (base : Int) (owner : ModuleName) (symbols : List Symbol)
    (state : SymbolMaps × List LinkError) :
    (symbols.foldl (move base owner) state).2 = state.2 ++ symbols.filterMap (outlier? base owner) := by
  induction symbols generalizing state with
  | nil => simp
  | cons symbol rest ih =>
    rw [List.foldl_cons, ih]
    cases h : outlier? base owner symbol with
    | none => rw [move_of_fits h, List.filterMap_cons_none h]
    | some error => rw [move_of_outlier? h, List.filterMap_cons_some h, List.append_assoc, List.singleton_append]

/-- Symbols that stay in range are all moved, and the definers stay as they were from the start. -/
private theorem foldl_move {base : Int} {owner : ModuleName} {symbols : List Symbol}
    (h : ∀ symbol ∈ symbols, outlier? base owner symbol = none) (state : SymbolMaps × List LinkError)
    (name : SymbolName) :
    (symbols.foldl (move base owner) state).1.get? name =
        ((Manifest.binding? symbols name).map fun binding => ⟨name, SymbolTable.moved base binding⟩).or
          (state.1.get? name) ∧
      (symbols.foldl (move base owner) state).1.definer? name = state.1.definer? name := by
  induction symbols generalizing state with
  | nil => exact ⟨rfl, rfl⟩
  | cons symbol rest ih =>
    obtain ⟨hfirst, hrest⟩ := List.forall_mem_cons.mp h
    obtain ⟨hget, hdefiner⟩ := ih hrest (move base owner state symbol)
    rw [List.foldl_cons, hget, hdefiner, move_of_fits hfirst, Manifest.binding?]
    refine ⟨?_, rfl⟩
    by_cases hname : symbol.name = name
    · cases Manifest.binding? rest name <;> simp [hname]
    · simp [hname]

theorem outOfRange_eq_filterMap (table : SymbolTable) (base : Int) (owner : ModuleName) :
    table.outOfRange base owner = table.symbols.filterMap (outlier? base owner) := by
  rw [SymbolTable.outOfRange_eq, SymbolTable.definitions_eq, List.filterMap_filterMap]
  congr 1
  funext symbol
  rw [outlier?, Option.bind_map]
  rfl

/-- Maps that have moved like the table that they represent, or could not move for the same reasons. -/
inductive Moved : Except (List LinkError) SymbolMaps → Except (List LinkError) SymbolTable → Prop where
  | ok {maps : SymbolMaps} {table : SymbolTable} (h : Represents maps table) : Moved (.ok maps) (.ok table)
  | error (errors : List LinkError) : Moved (.error errors) (.error errors)

theorem Moved.exists_table {maps : SymbolMaps} {outcome : Except (List LinkError) SymbolTable}
    (h : Moved (.ok maps) outcome) : ∃ table, Represents maps table := by
  cases h with
  | ok hmaps => exact ⟨_, hmaps⟩

theorem Moved.exists_maps {table : SymbolTable} {outcome : Except (List LinkError) SymbolMaps}
    (h : Moved outcome (.ok table)) : ∃ maps, outcome = .ok maps ∧ Represents maps table := by
  cases h with
  | ok hmaps => exact ⟨_, rfl, hmaps⟩

namespace Represents

variable {maps : SymbolMaps} {table : SymbolTable} (h : Represents maps table)
include h

/-- The maps move if the table does, and else for the same reasons. The symbols catch up with their definers. -/
theorem relocate (base : Int) (owner : ModuleName) : Moved (maps.relocate base owner) (table.relocate base owner) := by
  have herrors : (maps.moveAll base owner).2 = table.outOfRange base owner := by
    rw [moveAll, snd_foldl_move, List.nil_append, h.listed_eq, outOfRange_eq_filterMap]
  rw [SymbolMaps.relocate, herrors]
  by_cases hfits : table.FitsAt base
  · have hnone : table.outOfRange base owner = [] := SymbolTable.outOfRange_eq_nil_iff.mpr hfits
    rw [if_pos hnone, SymbolTable.relocate_of_fitsAt owner hfits]
    rw [outOfRange_eq_filterMap, List.filterMap_eq_nil_iff] at hnone
    have hmoved (name : SymbolName) := foldl_move hnone (⟨∅, maps.definers⟩, []) name
    rw [moveAll, h.listed_eq]
    refine .ok ⟨?_, ?_⟩
    · intro name
      rw [(hmoved name).1, SymbolTable.binding?_symbols, SymbolTable.get?_eq, SymbolTable.binding?_shifted,
        Option.map_map]
      exact Option.or_none
    · intro name
      rw [(hmoved name).2, SymbolTable.definer?_shifted]
      exact h.definer? name
  · obtain ⟨herror, hne⟩ := SymbolTable.relocate_of_not_fitsAt owner hfits
    rw [if_neg hne, herror]
    exact .error _

end Represents

/-- The same outcome, with maps and with a table that they represent. -/
inductive Agrees {α : Type} : SymbolMaps × α → SymbolTable × α → Prop where
  | intro {maps : SymbolMaps} {table : SymbolTable} (h : Represents maps table) (outcome : α) :
    Agrees (maps, outcome) (table, outcome)

namespace Agrees

theorem represents {α : Type} {result : SymbolMaps × α} {result' : SymbolTable × α} (h : Agrees result result') :
    Represents result.1 result'.1 := by
  cases h with
  | intro hmaps => exact hmaps

theorem absorb (owner : ModuleName) {state : SymbolMaps × List LinkError} {state' : SymbolTable × List LinkError}
    (h : Agrees state state') (symbol : Symbol) :
    Agrees (SymbolMaps.absorb owner state symbol) (SymbolTable.absorb owner state' symbol) := by
  obtain ⟨hmaps, errors⟩ := h
  obtain ⟨name, binding⟩ := symbol
  rw [SymbolMaps.absorb, SymbolTable.absorb, hmaps.get?, hmaps.definer?]
  cases binding with
  | undefined =>
    cases SymbolTable.get? _ name with
    | none => exact .intro (hmaps.set name .undefined) errors
    | some found => exact .intro hmaps errors
  | defined offset =>
    rcases SymbolTable.get? _ name with _ | ⟨key, _ | found⟩
    · exact .intro (hmaps.define name offset owner) errors
    · exact .intro (hmaps.define name offset owner) errors
    · exact .intro hmaps _

theorem foldl_absorb (owner : ModuleName) {state : SymbolMaps × List LinkError} {state' : SymbolTable × List LinkError}
    (h : Agrees state state') (symbols : List Symbol) :
    Agrees (symbols.foldl (SymbolMaps.absorb owner) state) (symbols.foldl (SymbolTable.absorb owner) state') := by
  induction symbols generalizing state state' with
  | nil => exact h
  | cons symbol rest ih => exact ih (h.absorb owner symbol)

end Agrees

namespace Represents

variable {maps : SymbolMaps} {table : SymbolTable} (h : Represents maps table)
include h

theorem combine {other : SymbolMaps} {table' : SymbolTable} (hother : Represents other table') (owner : ModuleName) :
    Agrees (maps.combine other owner) (table.combine table' owner) := by
  rw [SymbolMaps.combine, SymbolTable.combine, hother.listed_eq]
  exact (Agrees.intro h []).foldl_absorb owner table'.symbols

theorem measureAt (code : Code) (position : Int) :
    Agrees (maps.measureAt position code) (code.measureAt position table) := by
  induction code generalizing maps table position with
  | bytes payload => exact .intro h _
  | ref name => exact .intro h _
  | label name inner ih =>
    rw [SymbolMaps.measureAt, Code.measureAt]
    cases Offset.ofInt? position with
    | none => exact .intro h _
    | some offset => exact ih (h.set name (.defined offset)) position
  | seq first second ihf ihs | deferred first second ihf ihs =>
    have hfirst := ihf h position
    rw [SymbolMaps.measureAt, Code.measureAt]
    generalize maps.measureAt position first = left at hfirst
    generalize first.measureAt position table = left' at hfirst
    obtain ⟨hmiddle, e | firstSize⟩ := hfirst
    · exact .intro hmiddle _
    · have hsecond := ihs hmiddle (position + firstSize)
      dsimp only
      generalize SymbolMaps.measureAt (position + firstSize) _ second = right at hsecond
      generalize second.measureAt (position + firstSize) _ = right' at hsecond
      obtain ⟨hfinal, e | secondSize⟩ := hsecond
      · exact .intro hfinal _
      · exact .intro hfinal _

theorem substituteAt (code : Code) (position : Int) (errors : List CodeError) :
    Agrees (maps.substituteAt position errors code)
      ((code.substituteAt position table).table, errors ++ (code.substituteAt position table).errors,
        ⟨(code.substituteAt position table).code, (code.substituteAt position table).size⟩) := by
  induction code generalizing maps table position errors with
  | bytes payload => simpa [SymbolMaps.substituteAt, Code.substituteAt] using Agrees.intro h _
  | ref name =>
    rw [SymbolMaps.substituteAt, Code.substituteAt, h.get?, SymbolTable.get?_eq, SymbolTable.offset?_eq]
    rcases table.binding? name with _ | _ | offset
    · exact .intro h _
    · exact .intro h _
    · simpa [Binding.offset?] using Agrees.intro h _
  | label name inner ih =>
    rw [SymbolMaps.substituteAt, Code.substituteAt]
    cases Offset.ofInt? position with
    | none =>
      have hinner := ih h position (errors ++ [.outOfRange name position])
      rwa [List.append_assoc] at hinner
    | some offset => exact ih (h.set name (.defined offset)) position errors
  | seq first second ihf ihs =>
    have hfirst := ihf h position errors
    rw [SymbolMaps.substituteAt, Code.substituteAt]
    generalize first.substituteAt position table = left at hfirst
    generalize maps.substituteAt position errors first = left' at hfirst
    obtain ⟨hmiddle, _⟩ := hfirst
    have hsecond := ihs hmiddle (position + left.size) (errors ++ left.errors)
    dsimp only
    generalize second.substituteAt (position + left.size) left.table = right at hsecond
    generalize SymbolMaps.substituteAt (position + left.size) _ _ second = right' at hsecond
    obtain ⟨hfinal, _⟩ := hsecond
    rw [List.append_assoc]
    exact .intro hfinal _
  | deferred first second _ _ => simpa [SymbolMaps.substituteAt, Code.substituteAt] using Agrees.intro h _

theorem reduceAt (code : Code) (position : Int) :
    Agrees (maps.reduceAt position code) (code.reduceAt table position) := by
  have hcode := h.substituteAt code position []
  rw [SymbolMaps.reduceAt, Code.reduceAt]
  generalize maps.substituteAt position [] code = result at hcode
  generalize code.substituteAt position table = result' at hcode
  obtain ⟨hfinal, _⟩ := hcode
  dsimp only
  rw [List.nil_append]
  cases result'.errors with
  | nil => exact .intro hfinal _
  | cons error errors => exact .intro hfinal _

end Represents
end SymbolMaps
end StackLink
