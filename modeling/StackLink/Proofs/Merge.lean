import StackLink.Proofs.SymbolTable

/-!
# Moving and merging tables, name by name

What a merge makes of a name depends only on what the two tables say of it: a definition on the left
stays, and otherwise anything said on the right counts. This choice is associative, so a run of merges can be
grouped at will, and moving by a base goes through it.
-/
namespace StackLink

namespace Binding

/-- What two tables together say of a name. -/
def join : Option Binding → Option Binding → Option Binding
  | some (.defined offset), _ => some (.defined offset)
  | first, none => first
  | _, some second => some second

@[simp] theorem join_none_left (second : Option Binding) : join none second = second := by
  cases second <;> rfl

@[simp] theorem join_none_right (first : Option Binding) : join first none = first := by
  rcases first with _ | _ | _ <;> rfl

theorem join_assoc (a b c : Option Binding) : join (join a b) c = join a (join b c) := by
  rcases a with _ | _ | _ <;> rcases b with _ | _ | _ <;> rcases c with _ | _ | _ <;> rfl

theorem join_eq_none_iff {first second : Option Binding} :
    join first second = none ↔ first = none ∧ second = none := by
  rcases first with _ | _ | _ <;> rcases second with _ | _ | _ <;> simp [join]

theorem join_bind_offset? (first second : Option Binding) :
    (join first second).bind offset? = (first.bind offset?).or (second.bind offset?) := by
  rcases first with _ | _ | _ <;> rcases second with _ | _ | _ <;> rfl

theorem map_moved_join (base : Int) (first second : Option Binding) :
    (join first second).map (SymbolTable.moved base) =
      join (first.map (SymbolTable.moved base)) (second.map (SymbolTable.moved base)) := by
  rcases first with _ | _ | _ <;> rcases second with _ | _ | _ <;> rfl

end Binding

namespace SymbolTable

@[simp] theorem offset?_moved (base : Int) (binding : Binding) :
    (moved base binding).offset? = binding.offset?.map fun offset => Int16.ofInt (base + offset.toInt) := by
  cases binding <;> rfl

theorem offset?_map_moved (base : Int) (binding : Option Binding) :
    (binding.map (moved base)).bind Binding.offset? =
      (binding.bind Binding.offset?).map fun offset => Int16.ofInt (base + offset.toInt) := by
  rcases binding with _ | binding
  · rfl
  · exact offset?_moved base binding

theorem moved_moved (a b : Int) (binding : Binding) : moved a (moved b binding) = moved (a + b) binding := by
  cases binding with
  | undefined => rfl
  | defined offset => simp only [moved, Offset.ofInt_add_toInt_ofInt, Int.add_assoc]

def FitsAt (table : SymbolTable) (base : Int) : Prop :=
  ∀ name offset, table.offset? name = some offset → Offset.Fits (base + offset.toInt)

/-- The definitions that a move takes out of range are reported, each at the place where it would be. -/
theorem mem_outOfRange_iff {table : SymbolTable} {base : Int} {owner : ModuleName} {error : LinkError} :
    error ∈ table.outOfRange base owner ↔ ∃ name offset, table.offset? name = some offset ∧
      ¬Offset.Fits (base + offset.toInt) ∧ error = .outOfRange name owner (base + offset.toInt) .merge := by
  simp only [outOfRange, List.mem_filterMap]
  constructor
  · rintro ⟨⟨name, binding⟩, hmem, herror⟩
    cases binding with
    | undefined => cases herror
    | defined offset =>
      have hoffset := offset?_eq_some_iff.mpr (mem_symbols_iff.mp hmem)
      by_cases hfits : Offset.Fits (base + offset.toInt)
      · simp [Offset.ofInt?_of_fits hfits] at herror
      · simp only [Offset.ofInt?_of_not_fits hfits, Option.some.injEq] at herror
        exact ⟨name, offset, hoffset, hfits, herror.symm⟩
  · rintro ⟨name, offset, hoffset, hfits, rfl⟩
    have hmem : ⟨name, .defined offset⟩ ∈ table.symbols := mem_symbols_iff.mpr (offset?_eq_some_iff.mp hoffset)
    exact ⟨_, hmem, by simp only [Offset.ofInt?_of_not_fits hfits]⟩

theorem outOfRange_eq_nil_iff {table : SymbolTable} {base : Int} {owner : ModuleName} :
    table.outOfRange base owner = [] ↔ table.FitsAt base := by
  rw [List.eq_nil_iff_forall_not_mem]
  simp only [mem_outOfRange_iff, FitsAt]
  constructor
  · intro h name offset hoffset
    by_contra hfits
    exact h _ ⟨name, offset, hoffset, hfits, rfl⟩
  · rintro h error ⟨name, offset, hoffset, hfits, -⟩
    exact hfits (h name offset hoffset)

theorem phase_of_mem_outOfRange {table : SymbolTable} {base : Int} {owner : ModuleName} {error : LinkError}
    (h : error ∈ table.outOfRange base owner) : error.phase = .merge := by
  obtain ⟨name, offset, -, -, rfl⟩ := mem_outOfRange_iff.mp h
  rfl

/-- The table with each definition moved by `base`, in range or not. -/
def shifted (table : SymbolTable) (base : Int) : SymbolTable :=
  ⟨table.entries.map fun _ entry => { entry with binding := moved base entry.binding }⟩

@[simp] theorem binding?_shifted (table : SymbolTable) (base : Int) (name : SymbolName) :
    (table.shifted base).binding? name = (table.binding? name).map (moved base) := by
  simp [binding?, shifted, Function.comp_def]

@[simp] theorem offset?_shifted (table : SymbolTable) (base : Int) (name : SymbolName) :
    (table.shifted base).offset? name =
      (table.offset? name).map fun offset => Int16.ofInt (base + offset.toInt) := by
  rw [offset?_eq, binding?_shifted, offset?_map_moved, ← offset?_eq]

@[simp] theorem definer?_shifted (table : SymbolTable) (base : Int) (name : SymbolName) :
    (table.shifted base).definer? name = table.definer? name := by
  rw [definer?, shifted, Std.ExtTreeMap.getElem?_map, Option.bind_map]
  rfl

theorem relocate_of_fitsAt {table : SymbolTable} {base : Int} (owner : ModuleName) (h : table.FitsAt base) :
    table.relocate base owner = .ok (table.shifted base) := by
  rw [relocate, outOfRange_eq_nil_iff.mpr h]
  rfl

theorem relocate_of_not_fitsAt {table : SymbolTable} {base : Int} (owner : ModuleName)
    (h : ¬table.FitsAt base) :
    table.relocate base owner = .error (table.outOfRange base owner) ∧ table.outOfRange base owner ≠ [] := by
  have hne : table.outOfRange base owner ≠ [] := fun hnil => h (outOfRange_eq_nil_iff.mp hnil)
  refine ⟨?_, hne⟩
  unfold relocate
  split
  · contradiction
  · rfl

def collision? (table : SymbolTable) (owner : ModuleName) (symbol : Symbol) : Option LinkError :=
  match symbol.binding, table.offset? symbol.name with
  | .defined _, some _ =>
    some (.multipleDefinition symbol.name ((table.definer? symbol.name).getD "an earlier module") owner)
  | _, _ => none

private theorem snd_absorb (owner : ModuleName) (state : SymbolTable × List LinkError) (symbol : Symbol) :
    (absorb owner state symbol).2 = state.2 ++ (state.1.collision? owner symbol).toList := by
  obtain ⟨table, errors⟩ := state
  obtain ⟨key, binding⟩ := symbol
  rw [absorb, collision?, get?_eq, offset?_eq]
  rcases table.binding? key with _ | _ | found <;> rcases binding with _ | offset <;> simp [Binding.offset?]

private theorem binding?_absorb (owner : ModuleName) (state : SymbolTable × List LinkError) (symbol : Symbol)
    (name : SymbolName) :
    (absorb owner state symbol).1.binding? name =
      Binding.join (state.1.binding? name) (if symbol.name = name then some symbol.binding else none) := by
  obtain ⟨table, errors⟩ := state
  obtain ⟨key, binding⟩ := symbol
  by_cases h : key = name
  · subst h
    rw [absorb, get?_eq]
    rcases hb : table.binding? key with _ | _ | found <;> rcases binding with _ | offset <;> simp [Binding.join, hb]
  · rw [absorb]
    split <;> simp [h]

private theorem definer?_absorb (owner : ModuleName) (state : SymbolTable × List LinkError) (symbol : Symbol)
    (name : SymbolName) :
    (absorb owner state symbol).1.definer? name =
      if symbol.name = name ∧ symbol.offset?.isSome ∧ state.1.offset? name = none then some owner
      else state.1.definer? name := by
  obtain ⟨table, errors⟩ := state
  obtain ⟨key, binding⟩ := symbol
  by_cases h : key = name
  · subst h
    rw [absorb, get?_eq, offset?_eq]
    rcases hb : table.binding? key with _ | _ | found <;> rcases binding with _ | offset <;>
      simp [Symbol.offset?, Binding.offset?]
  · rw [absorb]
    split <;> simp [h]

private theorem foldl_absorb (owner : ModuleName) (symbols : List Symbol) (state : SymbolTable × List LinkError)
    (hn : (symbols.map Symbol.name).Nodup) (name : SymbolName) :
    (symbols.foldl (absorb owner) state).1.binding? name =
        Binding.join (state.1.binding? name) (Manifest.binding? symbols name) ∧
      (symbols.foldl (absorb owner) state).1.definer? name =
        if ((Manifest.binding? symbols name).bind Binding.offset?).isSome ∧ state.1.offset? name = none then some owner
        else state.1.definer? name := by
  induction symbols generalizing state with
  | nil => simp [Manifest.binding?]
  | cons symbol rest ih =>
    obtain ⟨hfresh, hrest⟩ := List.nodup_cons.mp hn
    obtain ⟨hb, hd⟩ := ih (absorb owner state symbol) hrest
    rw [List.foldl_cons, hb, hd, offset?_eq, binding?_absorb, definer?_absorb, Manifest.binding?]
    -- the name is that of the first symbol or of one of the others, never of both
    by_cases hname : symbol.name = name
    · have hnone : Manifest.binding? rest name = none :=
        Manifest.binding?_eq_none_iff.mpr (hname ▸ hfresh)
      simp [hname, hnone, Symbol.offset?]
    · simp [hname, offset?_eq]

private theorem snd_foldl_absorb (owner : ModuleName) (symbols : List Symbol) (state : SymbolTable × List LinkError)
    (hn : (symbols.map Symbol.name).Nodup) :
    (symbols.foldl (absorb owner) state).2 = state.2 ++ symbols.filterMap (state.1.collision? owner) := by
  induction symbols generalizing state with
  | nil => simp
  | cons symbol rest ih =>
    obtain ⟨hfresh, hrest⟩ := List.nodup_cons.mp hn
    -- the symbol that was taken over has another name than those that are still to come
    have hlater : rest.filterMap ((absorb owner state symbol).1.collision? owner) =
        rest.filterMap (state.1.collision? owner) := by
      apply List.filterMap_congr
      intro later hmem
      have hname : symbol.name ≠ later.name := fun h => hfresh (h ▸ List.mem_map_of_mem hmem)
      rw [collision?, collision?, offset?_eq, offset?_eq, binding?_absorb, definer?_absorb]
      simp [hname]
    rw [List.foldl_cons, ih _ hrest, snd_absorb, hlater, List.append_assoc]
    cases h : state.1.collision? owner symbol <;> simp [h]

/-- A merge reports what collides with the table as it was before. -/
theorem collisions_eq_filterMap (table other : SymbolTable) (owner : ModuleName) :
    table.collisions other owner = other.symbols.filterMap (table.collision? owner) := by
  rw [collisions, combine, snd_foldl_absorb owner _ (table, []) other.nodup_symbols, List.nil_append]

@[simp] theorem binding?_merge (table other : SymbolTable) (owner : ModuleName) (name : SymbolName) :
    (table.merge other owner).binding? name = Binding.join (table.binding? name) (other.binding? name) := by
  rw [merge, combine, (foldl_absorb owner _ (table, []) other.nodup_symbols name).1, binding?_symbols]

/-- A module becomes the definer of the names that it is the first to define. -/
@[simp] theorem definer?_merge (table other : SymbolTable) (owner : ModuleName) (name : SymbolName) :
    (table.merge other owner).definer? name =
      if (other.offset? name).isSome ∧ table.offset? name = none then some owner else table.definer? name := by
  rw [merge, combine, (foldl_absorb owner _ (table, []) other.nodup_symbols name).2, binding?_symbols, ← offset?_eq]

@[simp] theorem offset?_merge (table other : SymbolTable) (owner : ModuleName) (name : SymbolName) :
    (table.merge other owner).offset? name = (table.offset? name).or (other.offset? name) := by
  rw [offset?_eq, binding?_merge, Binding.join_bind_offset?, ← offset?_eq, ← offset?_eq]

/-- A definition stays, with its definer. -/
theorem getElem?_merge_of_defined {table : SymbolTable} {name : SymbolName} {offset : Int16}
    (h : table.offset? name = some offset) (other : SymbolTable) (owner : ModuleName) :
    (table.merge other owner).entries[name]? = table.entries[name]? := by
  rw [getElem?_eq, getElem?_eq, binding?_merge, definer?_merge, h, offset?_eq_some_iff.mp h]
  simp [Binding.join]

/-- The first definition of a name counts, whether or not the name was mentioned before. -/
theorem getElem?_merge_of_new {table other : SymbolTable} {name : SymbolName} {offset : Int16} (owner : ModuleName)
    (h : table.offset? name = none) (hother : other.offset? name = some offset) :
    (table.merge other owner).entries[name]? = some ⟨.defined offset, some owner⟩ := by
  rw [getElem?_eq, binding?_merge, definer?_merge, h, hother, offset?_eq_some_iff.mp hother]
  rw [offset?_eq] at h
  rcases hbinding : table.binding? name with _ | _ | found
  · rfl
  · rfl
  · simp [hbinding, Binding.offset?] at h

/-- A mere mention adds a name that is not known. -/
theorem getElem?_merge_of_not_defined {other : SymbolTable} {name : SymbolName} (h : other.offset? name = none)
    (table : SymbolTable) (owner : ModuleName) :
    (table.merge other owner).entries[name]? =
      table.entries[name]?.or ((other.binding? name).map fun _ => ⟨.undefined, none⟩) := by
  rw [getElem?_eq, binding?_merge, definer?_merge, h, binding?, definer?]
  rw [offset?_eq] at h
  rcases hbinding : other.binding? name with _ | _ | found
  · rcases table.entries[name]? with _ | entry <;> simp
  · rcases table.entries[name]? with _ | ⟨_ | offset, definer⟩ <;> simp [Binding.join]
  · simp [hbinding, Binding.offset?] at h

/-- The names that a module defines again are reported with the module that did so first. -/
theorem mem_collisions_iff {table other : SymbolTable} {owner : ModuleName} {error : LinkError} :
    error ∈ table.collisions other owner ↔ ∃ name, (other.offset? name).isSome ∧ (table.offset? name).isSome ∧
      error = .multipleDefinition name ((table.definer? name).getD "an earlier module") owner := by
  simp only [collisions_eq_filterMap, List.mem_filterMap, collision?]
  constructor
  · rintro ⟨⟨name, binding⟩, hmem, herror⟩
    cases binding with
    | undefined => cases herror
    | defined offset =>
      have hoffset := offset?_eq_some_iff.mpr (mem_symbols_iff.mp hmem)
      cases hfound : table.offset? name with
      | none => simp [hfound] at herror
      | some found =>
        simp only [hfound, Option.some.injEq] at herror
        exact ⟨name, by rw [hoffset, Option.isSome_some], by rw [hfound, Option.isSome_some], herror.symm⟩
  · rintro ⟨name, hother, htable, rfl⟩
    obtain ⟨offset, hoffset⟩ := Option.isSome_iff_exists.mp hother
    obtain ⟨found, hfound⟩ := Option.isSome_iff_exists.mp htable
    have hmem : ⟨name, .defined offset⟩ ∈ other.symbols := mem_symbols_iff.mpr (offset?_eq_some_iff.mp hoffset)
    exact ⟨_, hmem, by simp only [hfound]⟩

theorem collisions_eq_nil_iff {table other : SymbolTable} {owner : ModuleName} :
    table.collisions other owner = [] ↔
      ∀ name, (other.offset? name).isSome → table.offset? name = none := by
  rw [List.eq_nil_iff_forall_not_mem]
  simp only [mem_collisions_iff]
  constructor
  · intro h name hother
    by_contra hsome
    exact h _ ⟨name, hother, Option.isSome_iff_ne_none.mpr hsome, rfl⟩
  · rintro h error ⟨name, hother, htable, -⟩
    rw [h name hother] at htable
    cases htable

theorem phase_of_mem_collisions {table other : SymbolTable} {owner : ModuleName} {error : LinkError}
    (h : error ∈ table.collisions other owner) : error.phase = .merge := by
  obtain ⟨name, -, -, rfl⟩ := mem_collisions_iff.mp h
  rfl

/-- The names that a table defines, in their order, with their offsets. -/
def definitions (table : SymbolTable) : List (SymbolName × Int16) :=
  (table.entries.filterMap fun _ entry => entry.binding.offset?).toList

theorem definitions_eq (table : SymbolTable) :
    table.definitions =
      table.symbols.filterMap fun symbol => symbol.offset?.map fun offset => (symbol.name, offset) := by
  rw [definitions, Std.ExtTreeMap.toList_filterMap, symbols, List.filterMap_map]
  rfl

theorem definitions_congr {s t : SymbolTable} (h : ∀ name, t.offset? name = s.offset? name) :
    t.definitions = s.definitions := by
  have hentries : (t.entries.filterMap fun _ entry => entry.binding.offset?) =
      s.entries.filterMap fun _ entry => entry.binding.offset? := by
    apply Std.ExtTreeMap.ext_getElem?
    intro name
    simpa [offset?] using h name
  rw [definitions, definitions, hentries]

theorem outOfRange_eq (table : SymbolTable) (base : Int) (owner : ModuleName) :
    table.outOfRange base owner = table.definitions.filterMap fun (name, offset) =>
      if Offset.Fits (base + offset.toInt) then none
      else some (.outOfRange name owner (base + offset.toInt) .merge) := by
  rw [outOfRange, definitions_eq, List.filterMap_filterMap]
  congr 1
  funext symbol
  obtain ⟨name, binding⟩ := symbol
  cases binding with
  | undefined => rfl
  | defined offset =>
    by_cases hfits : Offset.Fits (base + offset.toInt)
    · simp [Symbol.offset?, Binding.offset?, Offset.ofInt?_of_fits hfits, hfits]
    · simp [Symbol.offset?, Binding.offset?, Offset.ofInt?_of_not_fits hfits, hfits]

theorem collisions_eq (table other : SymbolTable) (owner : ModuleName) :
    table.collisions other owner = other.definitions.filterMap fun (name, _) =>
      (table.offset? name).map fun _ =>
        .multipleDefinition name ((table.definer? name).getD "an earlier module") owner := by
  rw [collisions_eq_filterMap, definitions_eq, List.filterMap_filterMap]
  congr 1
  funext symbol
  obtain ⟨name, binding⟩ := symbol
  cases binding with
  | undefined => rfl
  | defined offset => cases hfound : table.offset? name <;> simp [collision?, Symbol.offset?, Binding.offset?, hfound]

/-- Tables that differ at most in names which they only mention. -/
structure SameDefinitions (s t : SymbolTable) : Prop where
  offset? : ∀ name, t.offset? name = s.offset? name
  definer? : ∀ name, t.definer? name = s.definer? name

namespace SameDefinitions

theorem refl (table : SymbolTable) : SameDefinitions table table :=
  ⟨fun _ => rfl, fun _ => rfl⟩

variable {s t : SymbolTable} (h : SameDefinitions s t)
include h

theorem fitsAt_iff (base : Int) : t.FitsAt base ↔ s.FitsAt base := by
  simp only [FitsAt, h.offset?]

theorem outOfRange (base : Int) (owner : ModuleName) : t.outOfRange base owner = s.outOfRange base owner := by
  rw [outOfRange_eq, outOfRange_eq, definitions_congr h.offset?]

theorem shifted (base : Int) : SameDefinitions (s.shifted base) (t.shifted base) := by
  refine ⟨?_, ?_⟩
  · intro name
    rw [offset?_shifted, offset?_shifted, h.offset?]
  · intro name
    rw [definer?_shifted, definer?_shifted, h.definer?]

variable {other same : SymbolTable} (hother : SameDefinitions other same) (owner : ModuleName)
include hother

theorem collisions : t.collisions same owner = s.collisions other owner := by
  rw [collisions_eq, collisions_eq, definitions_congr hother.offset?]
  simp only [h.offset?, h.definer?]

theorem merge : SameDefinitions (s.merge other owner) (t.merge same owner) := by
  refine ⟨?_, ?_⟩
  · intro name
    rw [offset?_merge, offset?_merge, h.offset?, hother.offset?]
  · intro name
    rw [definer?_merge, definer?_merge, h.offset?, h.definer?, hother.offset?]

end SameDefinitions

end SymbolTable
end StackLink
