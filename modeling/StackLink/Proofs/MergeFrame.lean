import StackLink.Proofs.Merge

/-!
# What a merge changes, and what a run of merges keeps

A merge goes through to its end whether or not names collide. It leaves definitions alone, adds those of the other
table, and reports the names that both define in their order. So a definition, once it is there, stays with its definer
through any number of merges.
-/
namespace StackLink.SymbolTable

/-- The later table has each definition of the earlier one, with its definer, and knows each name of it. -/
structure Retains (earlier later : SymbolTable) : Prop where
  defined : ∀ name offset, earlier.offset? name = some offset → later.entries[name]? = earlier.entries[name]?
  known : ∀ name, (earlier.get? name).isSome → (later.get? name).isSome

theorem get?_congr {s t : SymbolTable} {name : SymbolName} (h : t.entries[name]? = s.entries[name]?) :
    t.get? name = s.get? name := by
  rw [get?, get?, h]

theorem definer?_congr {s t : SymbolTable} {name : SymbolName} (h : t.entries[name]? = s.entries[name]?) :
    t.definer? name = s.definer? name := by
  rw [definer?, definer?, h]

theorem offset?_congr {s t : SymbolTable} {name : SymbolName} (h : t.entries[name]? = s.entries[name]?) :
    t.offset? name = s.offset? name := by
  rw [offset?, offset?, h]

theorem get?_eq_defined_iff {table : SymbolTable} {name : SymbolName} {offset : Int16} :
    table.get? name = some ⟨name, .defined offset⟩ ↔ table.offset? name = some offset := by
  rw [get?_eq, offset?_eq_some_iff]
  simp

theorem binding?_of_not_defined {table : SymbolTable} {name : SymbolName} (h : table.offset? name = none) :
    table.binding? name = none ∨ table.binding? name = some .undefined := by
  rw [offset?_eq] at h
  rcases hbinding : table.binding? name with _ | _ | offset
  · exact .inl rfl
  · exact .inr rfl
  · rw [hbinding] at h
    cases h

namespace Retains

theorem refl (table : SymbolTable) : Retains table table :=
  ⟨fun _ _ _ => rfl, fun _ h => h⟩

theorem trans {a b c : SymbolTable} (hab : Retains a b) (hbc : Retains b c) : Retains a c := by
  refine ⟨?_, fun name h => hbc.known name (hab.known name h)⟩
  intro name offset h
  have hb := hab.defined name offset h
  rw [hbc.defined name offset (by rw [offset?_congr hb, h]), hb]

theorem merge (table other : SymbolTable) (owner : ModuleName) : Retains table (table.merge other owner) := by
  refine ⟨fun name offset h => getElem?_merge_of_defined h other owner, ?_⟩
  intro name h
  rw [get?_eq, Option.isSome_map] at h ⊢
  rw [binding?_merge, ← Option.ne_none_iff_isSome, ne_eq, Binding.join_eq_none_iff]
  intro hnone
  rw [hnone.1] at h
  cases h

end Retains

/-- The table with those of modules merged into it one after another, collisions or not. -/
def mergeEach (table : SymbolTable) (pairs : List (SymbolTable × ModuleName)) : SymbolTable :=
  pairs.foldl (fun table pair => table.merge pair.1 pair.2) table

theorem retains_mergeEach (table : SymbolTable) (pairs : List (SymbolTable × ModuleName)) :
    Retains table (table.mergeEach pairs) := by
  induction pairs generalizing table with
  | nil => exact .refl table
  | cons pair rest ih => exact (Retains.merge table pair.1 pair.2).trans (ih _)

theorem mergeEach_append (table : SymbolTable) (first second : List (SymbolTable × ModuleName)) :
    table.mergeEach (first ++ second) = (table.mergeEach first).mergeEach second :=
  List.foldl_append

def sharedNames (table other : SymbolTable) : List SymbolName :=
  (other.definitions.map Prod.fst).filter fun name => (table.offset? name).isSome

theorem mem_definitions_iff {table : SymbolTable} {name : SymbolName} {offset : Int16} :
    (name, offset) ∈ table.definitions ↔ table.offset? name = some offset := by
  simp [definitions, Std.ExtTreeMap.mem_toList_iff_getElem?_eq_some, offset?, Option.bind_eq_some_iff]

theorem mem_sharedNames_iff {table other : SymbolTable} {name : SymbolName} :
    name ∈ sharedNames table other ↔ (table.offset? name).isSome ∧ (other.offset? name).isSome := by
  simp [sharedNames, mem_definitions_iff, Option.isSome_iff_exists, and_comm]

theorem sorted_definitions (table : SymbolTable) : (table.definitions.map Prod.fst).Pairwise (· < ·) := by
  rw [List.pairwise_map]
  exact sorted_toList _

theorem sorted_sharedNames (table other : SymbolTable) : (sharedNames table other).Pairwise (· < ·) :=
  other.sorted_definitions.filter _

theorem collisions_eq_map (table other : SymbolTable) (owner : ModuleName) :
    table.collisions other owner = (sharedNames table other).map fun name =>
      .multipleDefinition name ((table.definer? name).getD "an earlier module") owner := by
  rw [collisions_eq, sharedNames]
  induction other.definitions with
  | nil => rfl
  | cons pair rest ih => cases h : table.offset? pair.1 <;> simp [h, ih]

/-- After a merge, a definition stands as it did, with its definer. Another name has the definition of the other table, which
the owner supplied; without one it is undefined if either table had it, and its definer is as before. The names that both
tables define are reported in their order, each with its definer. Through any run of merges, definitions stay as they are
once they are there, and so no name becomes undefined again. -/
theorem merge_frame (table other : SymbolTable) (owner : ModuleName) :
    (∀ name offset, table.get? name = some ⟨name, .defined offset⟩ →
      (table.merge other owner).get? name = some ⟨name, .defined offset⟩ ∧
      (table.merge other owner).definer? name = table.definer? name) ∧
    (∀ name offset, table.offset? name = none → other.get? name = some ⟨name, .defined offset⟩ →
      (table.merge other owner).get? name = some ⟨name, .defined offset⟩ ∧
      (table.merge other owner).definer? name = some owner) ∧
    (∀ name, table.offset? name = none → other.offset? name = none →
      (table.merge other owner).get? name =
        (if (table.get? name).isSome ∨ (other.get? name).isSome then some ⟨name, .undefined⟩ else none) ∧
      (table.merge other owner).definer? name = table.definer? name) ∧
    (∃ names : List SymbolName, names.Pairwise (· < ·) ∧
      (∀ name, name ∈ names ↔ (table.offset? name).isSome ∧ (other.offset? name).isSome) ∧
      table.collisions other owner = names.map fun name =>
        .multipleDefinition name ((table.definer? name).getD "an earlier module") owner) ∧
    ∀ first second, Retains (table.mergeEach first) (table.mergeEach (first ++ second)) := by
  refine ⟨?_, ?_, ?_, ?_, ?_⟩
  · intro name offset h
    have hentry := getElem?_merge_of_defined (get?_eq_defined_iff.mp h) other owner
    exact ⟨(get?_congr hentry).trans h, definer?_congr hentry⟩
  · intro name offset hnone hother
    have hentry := getElem?_merge_of_new owner hnone (get?_eq_defined_iff.mp hother)
    exact ⟨by rw [get?, hentry]; rfl, by rw [definer?, hentry]; rfl⟩
  · intro name hnone hother
    refine ⟨?_, by rw [definer?_merge, hother]; rfl⟩
    rw [get?_eq, get?_eq, get?_eq, binding?_merge]
    rcases binding?_of_not_defined hnone with hfirst | hfirst <;>
      rcases binding?_of_not_defined hother with hsecond | hsecond <;> simp [hfirst, hsecond, Binding.join]
  · exact ⟨sharedNames table other, sorted_sharedNames table other, fun name => mem_sharedNames_iff,
      collisions_eq_map table other owner⟩
  · intro first second
    rw [mergeEach_append]
    exact retains_mergeEach _ second

/-- A definer outlives the definition that it supplied, until another one supplies the next. -/
theorem merge_frame_stale :
    let table := (empty.merge (ofSymbols [⟨"a", .defined 4⟩, ⟨"b", .defined 5⟩]) "m").set "a" .undefined
    let other := ofSymbols [⟨"a", .undefined⟩, ⟨"b", .defined 6⟩, ⟨"c", .defined 7⟩]
    (table.merge other "n").get? "a" = some ⟨"a", .undefined⟩ ∧ (table.merge other "n").definer? "a" = some "m" ∧
    (table.merge other "n").get? "b" = some ⟨"b", .defined 5⟩ ∧ (table.merge other "n").definer? "b" = some "m" ∧
    (table.merge other "n").get? "c" = some ⟨"c", .defined 7⟩ ∧ (table.merge other "n").definer? "c" = some "n" ∧
    table.collisions other "n" = [.multipleDefinition "b" "m" "n"] := by
  intro table other
  obtain ⟨hdefined, hnew, hmentioned, -, -⟩ := merge_frame table other "n"
  obtain ⟨hmention, hdefiner⟩ := hmentioned "a" rfl rfl
  obtain ⟨hkept, howner⟩ := hdefined "b" 5 rfl
  obtain ⟨hadded, hsupplied⟩ := hnew "c" 7 rfl rfl
  exact ⟨hmention, hdefiner, hkept, howner, hadded, hsupplied, rfl⟩

end StackLink.SymbolTable
