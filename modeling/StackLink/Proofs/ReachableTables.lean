import StackLink.Proofs.Bytes
import StackLink.Proofs.Duplicates
import StackLink.Proofs.SymbolMaps

/-!
# Tables that the operations lead to

Whatever operations the two maps of a table have gone through, whether they failed or not, the symbols are listed in the
order of the UTF-8 forms of their names, each is found under its own name, and each name with a definer has a symbol. In
the table of an image the names with a definer are those that are defined.
-/
namespace StackLink

namespace SymbolMaps

/-- The maps that the operations lead to from empty ones. An operation that fails leaves what it has written. -/
inductive Reachable : SymbolMaps → Prop where
  | empty : Reachable .empty
  | ofSymbols (symbols : List Symbol) : Reachable (.ofSymbols symbols)
  | set {maps : SymbolMaps} (h : Reachable maps) (name : SymbolName) (binding : Binding) :
    Reachable (maps.set name binding)
  | combine {maps other : SymbolMaps} (h : Reachable maps) (hother : Reachable other) (owner : ModuleName) :
    Reachable (maps.combine other owner).1
  | relocate {maps moved : SymbolMaps} (h : Reachable maps) {base : Int} {owner : ModuleName}
    (hmoved : maps.relocate base owner = .ok moved) : Reachable moved
  | measure {maps : SymbolMaps} (h : Reachable maps) (code : Code) (position : Int) :
    Reachable (maps.measureAt position code).1
  | reduce {maps : SymbolMaps} (h : Reachable maps) (code : Code) (position : Int) :
    Reachable (maps.reduceAt position code).1

theorem Reachable.exists_represents {maps : SymbolMaps} (h : Reachable maps) : ∃ table, Represents maps table := by
  induction h with
  | empty => exact ⟨_, .empty⟩
  | ofSymbols symbols => exact ⟨_, Represents.empty.setAll symbols⟩
  | set _ name binding ih =>
    obtain ⟨table, htable⟩ := ih
    exact ⟨_, htable.set name binding⟩
  | combine _ _ owner ih ihother =>
    obtain ⟨table, htable⟩ := ih
    obtain ⟨other, hother⟩ := ihother
    exact ⟨_, (htable.combine hother owner).represents⟩
  | @relocate _ _ _ base owner hmoved ih =>
    obtain ⟨table, htable⟩ := ih
    have hrelocate := htable.relocate base owner
    rw [hmoved] at hrelocate
    exact hrelocate.exists_table
  | measure _ code position ih =>
    obtain ⟨table, htable⟩ := ih
    exact ⟨_, (htable.measureAt code position).represents⟩
  | reduce _ code position ih =>
    obtain ⟨table, htable⟩ := ih
    exact ⟨_, (htable.reduceAt code position).represents⟩

/-- The symbols are listed in the order of the UTF-8 forms of their names, a symbol is found just under the name that it
is listed with, and each name with a definer is listed. -/
structure Coherent (maps : SymbolMaps) : Prop where
  increasing : (maps.listed.map Symbol.name).Pairwise fun first second => Bytes.ofText first < Bytes.ofText second
  get? : ∀ name symbol, maps.get? name = some symbol ↔ symbol ∈ maps.listed ∧ symbol.name = name
  size : maps.size = (maps.listed.map Symbol.name).length
  definer? : ∀ name owner, maps.definer? name = some owner → name ∈ maps.listed.map Symbol.name

theorem Represents.get?_eq_some_iff {maps : SymbolMaps} {table : SymbolTable} (h : Represents maps table)
    {name : SymbolName} {symbol : Symbol} :
    maps.get? name = some symbol ↔ symbol ∈ maps.listed ∧ symbol.name = name := by
  rw [h.get?, h.listed_eq, SymbolTable.get?_eq, Option.map_eq_some_iff, SymbolTable.mem_symbols_iff]
  constructor
  · rintro ⟨binding, hbinding, rfl⟩
    exact ⟨hbinding, rfl⟩
  · rintro ⟨hbinding, rfl⟩
    exact ⟨symbol.binding, hbinding, rfl⟩

theorem Reachable.coherent {maps : SymbolMaps} (h : Reachable maps) : maps.Coherent := by
  obtain ⟨table, htable⟩ := h.exists_represents
  refine ⟨?_, ?_, ?_, ?_⟩
  · rw [htable.listed_eq]
    exact table.sorted_symbols.imp Bytes.ofText_lt_ofText
  · intro name symbol
    exact htable.get?_eq_some_iff
  · rw [List.length_map, listed, List.length_map, Std.ExtTreeMap.length_toList, SymbolMaps.size]
  · intro name owner howner
    obtain ⟨symbol, hsymbol⟩ := htable.known howner
    obtain ⟨hlisted, rfl⟩ := htable.get?_eq_some_iff.mp hsymbol
    exact List.mem_map_of_mem hlisted

end SymbolMaps

/-- A table that the operations on maps can lead to. -/
def SymbolTable.Built (table : SymbolTable) : Prop :=
  ∃ maps : SymbolMaps, maps.Reachable ∧ maps.Represents table

namespace SymbolTable.Built

theorem empty : Built .empty :=
  ⟨_, .empty, .empty⟩

theorem ofSymbols (symbols : List Symbol) : Built (.ofSymbols symbols) :=
  ⟨_, .ofSymbols symbols, SymbolMaps.Represents.empty.setAll symbols⟩

variable {table : SymbolTable} (h : table.Built)
include h

theorem merge {other : SymbolTable} (hother : other.Built) (owner : ModuleName) : (table.merge other owner).Built := by
  obtain ⟨maps, hmaps, hrep⟩ := h
  obtain ⟨maps', hmaps', hrep'⟩ := hother
  exact ⟨_, hmaps.combine hmaps' owner, (hrep.combine hrep' owner).represents⟩

theorem relocate {moved : SymbolTable} {base : Int} {owner : ModuleName}
    (hmoved : table.relocate base owner = .ok moved) : moved.Built := by
  obtain ⟨maps, hmaps, hrep⟩ := h
  have hrelocate := hrep.relocate base owner
  rw [hmoved] at hrelocate
  obtain ⟨maps', hmaps', hrep'⟩ := hrelocate.exists_maps
  exact ⟨maps', hmaps.relocate hmaps', hrep'⟩

end SymbolTable.Built

namespace Link

theorem built_mergeFrom {table : SymbolTable} (h : table.Built) {placed : List PlacedModule}
    (hplaced : ∀ p ∈ placed, p.symbols.Built) : (mergeFrom table placed).1.Built := by
  induction placed generalizing table with
  | nil => exact h
  | cons first rest ih =>
    obtain ⟨hfirst, hrest⟩ := List.forall_mem_cons.mp hplaced
    rw [mergeFrom]
    cases habsolute : absolute first with
    | ok symbols => exact ih (h.merge (hfirst.relocate habsolute) first.module.name) hrest
    | error errors => exact ih h hrest

theorem built_merged (modules : List Module) : (merged modules).Built := by
  apply built_mergeFrom .empty
  intro p hp
  obtain ⟨placed, -, rfl⟩ := List.mem_map.mp hp
  exact .ofSymbols placed.2.symbols

theorem isSome_definer?_iff {modules : List Module} {name : SymbolName} :
    (definer? name modules).isSome ↔ Defines modules name := by
  rw [definer?, Option.isSome_map, List.find?_isSome]
  rfl

theorem mem_of_definer? {modules : List Module} {name : SymbolName} {owner : ModuleName}
    (h : definer? name modules = some owner) : ∃ m ∈ modules, m.name = owner := by
  obtain ⟨m, hfind, hname⟩ := Option.map_eq_some_iff.mp h
  exact ⟨m, List.mem_of_find?_eq_some hfind, hname⟩

end Link

/-- All maps that the operations lead to are coherent and represent a table, and each operation does to maps what it does
to the table that they represent, with the same outcome. The table of an image is represented by such maps, and by no
others. In it a name has a definer just if it is defined, and the definer is among the modules of the image. -/
theorem reachable_coherent :
    (∀ maps : SymbolMaps, maps.Reachable → maps.Coherent ∧ ∃ table, maps.Represents table) ∧
    (∀ symbols, (SymbolMaps.ofSymbols symbols).Represents (.ofSymbols symbols)) ∧
    (∀ (maps : SymbolMaps) (table : SymbolTable), maps.Represents table →
      (∀ name binding, (maps.set name binding).Represents (table.set name binding)) ∧
      (∀ (other : SymbolMaps) (table' : SymbolTable) (owner : ModuleName), other.Represents table' →
        SymbolMaps.Agrees (maps.combine other owner) (table.combine table' owner)) ∧
      (∀ base owner, SymbolMaps.Moved (maps.relocate base owner) (table.relocate base owner)) ∧
      ∀ (code : Code) (position : Int),
        SymbolMaps.Agrees (maps.measureAt position code) (code.measureAt position table) ∧
        SymbolMaps.Agrees (maps.reduceAt position code) (code.reduceAt table position)) ∧
    ∀ (modules : List Module) (image : Image), link modules = .ok image →
      (∃ maps : SymbolMaps, maps.Reachable ∧ ∀ other : SymbolMaps, other.Represents image.symbols ↔ other = maps) ∧
      (∀ name, (image.symbols.definer? name).isSome ↔ (image.symbols.offset? name).isSome) ∧
      ∀ name owner, image.symbols.definer? name = some owner → owner ∈ image.placements.map Placement.owner := by
  refine ⟨fun maps h => ⟨h.coherent, h.exists_represents⟩, SymbolMaps.Represents.empty.setAll, ?_, ?_⟩
  · intro maps table h
    exact ⟨h.set, fun _ _ owner hother => h.combine hother owner, h.relocate, fun code position =>
      ⟨h.measureAt code position, h.reduceAt code position⟩⟩
  · intro modules image hlink
    obtain ⟨⟨hmerge, -⟩, rfl⟩ := Link.link_eq_ok_iff.mp hlink
    have hfit := hmerge.definitionsFit
    simp only [Link.imageOf, hmerge.table_filled]
    refine ⟨?_, ?_, ?_⟩
    · obtain ⟨maps, hmaps, hrep⟩ := Link.built_merged modules
      exact ⟨maps, hmaps, fun other => ⟨fun hother => hother.unique hrep, fun heq => heq ▸ hrep⟩⟩
    · intro name
      rw [Link.definer?_merged hfit, Link.isSome_offset?_merged hfit, Link.isSome_definer?_iff]
    · intro name owner howner
      rw [Link.definer?_merged hfit] at howner
      obtain ⟨m, hm, rfl⟩ := Link.mem_of_definer? howner
      obtain ⟨start, hstart⟩ := Link.exists_mem_layoutFrom hm
      rw [List.map_map]
      exact List.mem_map_of_mem hstart

/-- The second merge collides, the definer outlives the definition, and the order is that of UTF-8 and not of UTF-16. Maps
that no operation has written need not be coherent. -/
theorem reachable_coherent_stale :
    let other := SymbolMaps.ofSymbols [⟨"😀", .defined 3⟩, ⟨"\uffff", .undefined⟩]
    let maps := ((SymbolMaps.empty.combine other "m").1.combine other "n").1.set "😀" .undefined
    let modules : List Module := [⟨"a", [⟨"y", .undefined⟩], .ref "x"⟩, ⟨"b", [], .mark "x"⟩]
    maps.Reachable ∧ maps.Coherent ∧ maps.listed.map Symbol.name = ["\uffff", "😀"] ∧ maps.definer? "😀" = some "m" ∧
    ¬(⟨∅, maps.definers⟩ : SymbolMaps).Coherent ∧
    ∃ image, link modules = .ok image ∧ (image.symbols.offset? "x").isSome ∧ image.symbols.definer? "y" = none ∧
      "b" ∈ image.placements.map Placement.owner := by
  intro other maps modules
  have hother : other.Reachable := .ofSymbols _
  have hmaps : maps.Reachable := ((SymbolMaps.Reachable.empty.combine hother "m").combine hother "n").set _ _
  have hdefiner : maps.definer? "😀" = some "m" := by decide +kernel
  refine ⟨hmaps, (reachable_coherent.1 maps hmaps).1, by decide +kernel, hdefiner, ?_, _, rfl, ?_⟩
  · intro hcoherent
    have hlisted := hcoherent.definer? "😀" "m" hdefiner
    simp [SymbolMaps.listed] at hlisted
  · obtain ⟨-, hdefined, howner⟩ := reachable_coherent.2.2.2 modules _ rfl
    refine ⟨(hdefined "x").mp (by decide +kernel), ?_, howner "x" "b" (by decide +kernel)⟩
    rw [← Option.not_isSome_iff_eq_none, hdefined]
    decide +kernel

end StackLink
