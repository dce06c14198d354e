import Mathlib.Data.List.Nodup
import StackLink.Manifest
import StackLink.SymbolTable.Merge

/-!
# Symbol tables, name by name

A table is known by what it holds for each name: a binding and a definer. Setting, moving and merging are
each described by what they do to one name, and two tables that agree on every name are equal.
-/
namespace StackLink

namespace Offset

def Fits (n : Int) : Prop :=
  -32768 ≤ n ∧ n ≤ 32767

instance (n : Int) : Decidable (Fits n) :=
  inferInstanceAs (Decidable (_ ∧ _))

theorem fits_toInt (offset : Int16) : Fits offset.toInt := by
  have hlow := offset.le_toInt
  have hhigh := offset.toInt_lt
  exact ⟨by omega, by omega⟩

theorem ofInt?_of_fits {n : Int} (h : Fits n) : ofInt? n = some (Int16.ofInt n) :=
  if_pos h

theorem ofInt?_of_not_fits {n : Int} (h : ¬Fits n) : ofInt? n = none :=
  if_neg h

theorem toInt_ofInt_of_fits {n : Int} (h : Fits n) : (Int16.ofInt n).toInt = n :=
  toInt_of_ofInt? (ofInt?_of_fits h)

/-- Moving in two steps is moving once, whether or not the offset between them is in range. -/
theorem ofInt_add_toInt_ofInt (a b : Int) : Int16.ofInt (a + (Int16.ofInt b).toInt) = Int16.ofInt (a + b) := by
  rw [Int16.ofInt_add, Int16.ofInt_toInt, ← Int16.ofInt_add]

end Offset

namespace Manifest

def binding? : Manifest → SymbolName → Option Binding
  | [], _ => none
  | symbol :: rest, name =>
    (binding? rest name).or (if symbol.name = name then some symbol.binding else none)

theorem binding?_append (first second : Manifest) (name : SymbolName) :
    binding? (first ++ second) name = (binding? second name).or (binding? first name) := by
  induction first with
  | nil => simp [binding?]
  | cons symbol rest ih => simp only [List.cons_append, binding?, ih, Option.or_assoc]

theorem mem_of_binding? {manifest : Manifest} {name : SymbolName} {binding : Binding}
    (h : binding? manifest name = some binding) : ⟨name, binding⟩ ∈ manifest := by
  induction manifest with
  | nil => simp [binding?] at h
  | cons symbol rest ih =>
    rw [binding?, Option.or_eq_some_iff] at h
    rcases h with h | ⟨_, h⟩
    · exact List.mem_cons_of_mem _ (ih h)
    · by_cases hname : symbol.name = name
      · rw [if_pos hname, Option.some.injEq] at h
        subst hname h
        exact List.mem_cons_self
      · simp [hname] at h

theorem binding?_eq_none_iff {manifest : Manifest} {name : SymbolName} :
    binding? manifest name = none ↔ name ∉ manifest.map Symbol.name := by
  induction manifest with
  | nil => simp [binding?]
  | cons symbol rest ih =>
    by_cases hname : symbol.name = name
    · simp [binding?, hname]
    · simp [binding?, ih, hname, Ne.symm hname]

theorem binding?_of_nodup {manifest : Manifest} (hn : (manifest.map Symbol.name).Nodup) {symbol : Symbol}
    (h : symbol ∈ manifest) : binding? manifest symbol.name = some symbol.binding := by
  have hsome : binding? manifest symbol.name ≠ none := fun hnone =>
    binding?_eq_none_iff.mp hnone (List.mem_map_of_mem h)
  obtain ⟨binding, hbinding⟩ := Option.ne_none_iff_exists'.mp hsome
  have hsame := List.inj_on_of_nodup_map hn (mem_of_binding? hbinding) h rfl
  rw [hbinding, ← hsame]

end Manifest

namespace SymbolTable

def binding? (table : SymbolTable) (name : SymbolName) : Option Binding :=
  table.entries[name]?.map Entry.binding

theorem getElem?_eq (table : SymbolTable) (name : SymbolName) :
    table.entries[name]? = (table.binding? name).map fun binding => ⟨binding, table.definer? name⟩ := by
  cases h : table.entries[name]? <;> simp [binding?, definer?, h]

theorem offset?_eq (table : SymbolTable) (name : SymbolName) :
    table.offset? name = (table.binding? name).bind Binding.offset? := by
  rw [binding?, Option.bind_map]
  rfl

theorem get?_eq (table : SymbolTable) (name : SymbolName) :
    table.get? name = (table.binding? name).map fun binding => ⟨name, binding⟩ := by
  simp [get?, binding?, Function.comp_def]

theorem offset?_eq_some_iff {table : SymbolTable} {name : SymbolName} {offset : Int16} :
    table.offset? name = some offset ↔ table.binding? name = some (.defined offset) := by
  rw [offset?_eq]
  rcases table.binding? name with _ | _ | found <;> simp [Binding.offset?]

theorem ext_binding? {s t : SymbolTable} (hb : ∀ name, s.binding? name = t.binding? name)
    (hd : ∀ name, s.definer? name = t.definer? name) : s = t := by
  ext1 name
  rw [getElem?_eq, getElem?_eq, hb, hd]

@[simp] theorem binding?_empty (name : SymbolName) : empty.binding? name = none := by
  simp [binding?, empty]

@[simp] theorem definer?_empty (name : SymbolName) : empty.definer? name = none := by
  simp [definer?, empty]

@[simp] theorem binding?_set (table : SymbolTable) (name other : SymbolName) (binding : Binding) :
    (table.set name binding).binding? other = if name = other then some binding else table.binding? other := by
  by_cases h : name = other <;> simp [binding?, h]

@[simp] theorem definer?_set (table : SymbolTable) (name other : SymbolName) (binding : Binding) :
    (table.set name binding).definer? other = table.definer? other := by
  by_cases h : name = other
  · subst h
    simp [definer?]
  · simp [definer?, h]

@[simp] theorem offset?_set (table : SymbolTable) (name other : SymbolName) (binding : Binding) :
    (table.set name binding).offset? other = if name = other then binding.offset? else table.offset? other := by
  rw [offset?_eq, binding?_set]
  by_cases h : name = other
  · rw [if_pos h, if_pos h, Option.bind_some]
  · rw [if_neg h, if_neg h, ← offset?_eq]

theorem set_of_offset? {table : SymbolTable} {name : SymbolName} {offset : Int16}
    (h : table.offset? name = some offset) : table.set name (.defined offset) = table := by
  apply ext_binding?
  · intro other
    rw [binding?_set]
    by_cases hother : name = other
    · subst hother
      rw [if_pos rfl, offset?_eq_some_iff.mp h]
    · rw [if_neg hother]
  · intro other
    exact definer?_set _ _ _ _

@[simp] theorem binding?_define (table : SymbolTable) (name other : SymbolName) (offset : Int16)
    (definer : ModuleName) :
    (table.define name offset definer).binding? other =
      if name = other then some (.defined offset) else table.binding? other := by
  by_cases h : name = other <;> simp [binding?, h]

@[simp] theorem definer?_define (table : SymbolTable) (name other : SymbolName) (offset : Int16)
    (definer : ModuleName) :
    (table.define name offset definer).definer? other =
      if name = other then some definer else table.definer? other := by
  by_cases h : name = other <;> simp [definer?, h]

@[simp] theorem setAll_cons (table : SymbolTable) (symbol : Symbol) (symbols : List Symbol) :
    table.setAll (symbol :: symbols) = (table.set symbol.name symbol.binding).setAll symbols := rfl

theorem binding?_setAll (table : SymbolTable) (symbols : List Symbol) (name : SymbolName) :
    (table.setAll symbols).binding? name = (Manifest.binding? symbols name).or (table.binding? name) := by
  induction symbols generalizing table with
  | nil => rfl
  | cons symbol rest ih =>
    rw [setAll_cons, ih, binding?_set, Manifest.binding?, Option.or_assoc]
    congr 1
    by_cases h : symbol.name = name <;> simp [h]

@[simp] theorem definer?_setAll (table : SymbolTable) (symbols : List Symbol) (name : SymbolName) :
    (table.setAll symbols).definer? name = table.definer? name := by
  induction symbols generalizing table with
  | nil => rfl
  | cons symbol rest ih =>
    rw [setAll_cons, ih, definer?_set]

theorem setAll_setAll (table : SymbolTable) (symbols : List Symbol) :
    (table.setAll symbols).setAll symbols = table.setAll symbols := by
  apply ext_binding?
  · intro name
    rw [binding?_setAll, binding?_setAll, ← Option.or_assoc, Option.or_self]
  · intro name
    rw [definer?_setAll]

@[simp] theorem binding?_ofSymbols (symbols : List Symbol) (name : SymbolName) :
    (ofSymbols symbols).binding? name = Manifest.binding? symbols name := by
  rw [ofSymbols, binding?_setAll, binding?_empty, Option.or_none]

@[simp] theorem definer?_ofSymbols (symbols : List Symbol) (name : SymbolName) :
    (ofSymbols symbols).definer? name = none := by
  rw [ofSymbols, definer?_setAll, definer?_empty]

theorem mem_symbols_iff {table : SymbolTable} {symbol : Symbol} :
    symbol ∈ table.symbols ↔ table.binding? symbol.name = some symbol.binding := by
  simp only [symbols, List.mem_map, binding?, Option.map_eq_some_iff]
  constructor
  · rintro ⟨⟨name, entry⟩, hmem, rfl⟩
    exact ⟨entry, Std.ExtTreeMap.mem_toList_iff_getElem?_eq_some.mp hmem, rfl⟩
  · rintro ⟨entry, hentry, hbinding⟩
    refine ⟨(symbol.name, entry), Std.ExtTreeMap.mem_toList_iff_getElem?_eq_some.mpr hentry, ?_⟩
    rw [hbinding]

theorem sorted_toList {β : Type} (map : Std.ExtTreeMap SymbolName β) :
    map.toList.Pairwise fun first second => first.1 < second.1 := by
  apply Std.ExtTreeMap.ordered_keys_toList.imp
  intro first second h
  exact compareOfLessAndEq_eq_lt.mp h

theorem sorted_symbols (table : SymbolTable) : (table.symbols.map Symbol.name).Pairwise (· < ·) := by
  rw [symbols, List.map_map, List.pairwise_map]
  exact sorted_toList table.entries

theorem nodup_symbols (table : SymbolTable) : (table.symbols.map Symbol.name).Nodup := by
  have hkeys : table.symbols.map Symbol.name = table.entries.keys := by
    rw [← Std.ExtTreeMap.map_fst_toList_eq_keys, symbols, List.map_map]
    rfl
  rw [hkeys]
  exact Std.ExtTreeMap.nodup_keys

@[simp] theorem binding?_symbols (table : SymbolTable) (name : SymbolName) :
    Manifest.binding? table.symbols name = table.binding? name := by
  cases h : table.binding? name with
  | some binding =>
    have hmem : ⟨name, binding⟩ ∈ table.symbols := mem_symbols_iff.mpr h
    exact Manifest.binding?_of_nodup table.nodup_symbols hmem
  | none =>
    rw [Manifest.binding?_eq_none_iff]
    intro hmem
    obtain ⟨symbol, hsymbol, rfl⟩ := List.mem_map.mp hmem
    rw [mem_symbols_iff, h] at hsymbol
    cases hsymbol

end SymbolTable
end StackLink
