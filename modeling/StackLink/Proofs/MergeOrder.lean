import Mathlib.Data.List.Induction
import StackLink.Proofs.Merge
import StackLink.Proofs.Outcome

/-!
# Tables merged in any order

As long as no name is defined twice, what merging leaves for a name can be told from the tables as a set: its one
definition with the module that supplied it, else a mention, else nothing. So the order of the tables does not matter.
-/
namespace StackLink.SymbolTable

/-- Merges the table of a module, or reports the names that it defines again. -/
def mergeStep (table : SymbolTable) (pair : SymbolTable × ModuleName) : Except (List LinkError) SymbolTable :=
  match table.collisions pair.1 pair.2 with
  | [] => .ok (table.merge pair.1 pair.2)
  | errors => .error errors

def mergeAll (pairs : List (SymbolTable × ModuleName)) : Except (List LinkError) SymbolTable :=
  pairs.foldlM mergeStep empty

def Compatible (pairs : List (SymbolTable × ModuleName)) : Prop :=
  pairs.Pairwise fun p q => ∀ name, ¬((p.1.offset? name).isSome ∧ (q.1.offset? name).isSome)

/-- The table has the definitions of the others with the modules that supplied them, and the names that are only
mentioned there. -/
structure Gathers (table : SymbolTable) (pairs : List (SymbolTable × ModuleName)) : Prop where
  defined : ∀ pair ∈ pairs, ∀ name offset, pair.1.offset? name = some offset →
    table.entries[name]? = some ⟨.defined offset, some pair.2⟩
  mentioned : ∀ name, (∀ pair ∈ pairs, pair.1.offset? name = none) →
    (∃ pair ∈ pairs, (pair.1.binding? name).isSome) → table.entries[name]? = some ⟨.undefined, none⟩
  absent : ∀ name, (∀ pair ∈ pairs, pair.1.binding? name = none) → table.entries[name]? = none

/-- A name is defined in one of the tables, or only mentioned, or not known. -/
theorem name_cases (pairs : List (SymbolTable × ModuleName)) (name : SymbolName) :
    (∃ pair ∈ pairs, ∃ offset, pair.1.offset? name = some offset) ∨
      ((∀ pair ∈ pairs, pair.1.offset? name = none) ∧ ∃ pair ∈ pairs, (pair.1.binding? name).isSome) ∨
      ∀ pair ∈ pairs, pair.1.binding? name = none := by
  by_cases hdefined : ∃ pair ∈ pairs, ∃ offset, pair.1.offset? name = some offset
  · exact .inl hdefined
  · by_cases hlisted : ∃ pair ∈ pairs, (pair.1.binding? name).isSome
    · refine .inr (.inl ⟨?_, hlisted⟩)
      intro pair hpair
      rw [Option.eq_none_iff_forall_ne_some]
      exact fun offset hoffset => hdefined ⟨pair, hpair, offset, hoffset⟩
    · refine .inr (.inr ?_)
      intro pair hpair
      rw [← Option.not_isSome_iff_eq_none]
      exact fun hsome => hlisted ⟨pair, hpair, hsome⟩

theorem offset?_eq_none_of_binding? {table : SymbolTable} {name : SymbolName} (h : table.binding? name = none) :
    table.offset? name = none := by
  rw [offset?_eq, h, Option.bind_none]

namespace Gathers

theorem nil : Gathers empty [] := by
  refine ⟨?_, ?_, ?_⟩
  · intro pair hpair
    cases hpair
  · rintro name - ⟨pair, hpair, -⟩
    cases hpair
  · intro name _
    simp [empty]

theorem of_mem_iff {table : SymbolTable} {pairs others : List (SymbolTable × ModuleName)} (h : Gathers table pairs)
    (hmem : ∀ pair, pair ∈ others ↔ pair ∈ pairs) : Gathers table others := by
  refine ⟨?_, ?_, ?_⟩
  · intro pair hpair
    exact h.defined pair ((hmem pair).mp hpair)
  · rintro name hnone ⟨pair, hpair, hlisted⟩
    have hnowhere : ∀ other ∈ pairs, other.1.offset? name = none := fun other hother =>
      hnone other ((hmem other).mpr hother)
    exact h.mentioned name hnowhere ⟨pair, (hmem pair).mp hpair, hlisted⟩
  · intro name hnone
    exact h.absent name fun pair hpair => hnone pair ((hmem pair).mpr hpair)

theorem unique {s t : SymbolTable} {pairs : List (SymbolTable × ModuleName)} (hs : Gathers s pairs)
    (ht : Gathers t pairs) : s = t := by
  ext1 name
  rcases name_cases pairs name with ⟨pair, hpair, offset, hoffset⟩ | ⟨hnone, hlisted⟩ | habsent
  · rw [hs.defined pair hpair name offset hoffset, ht.defined pair hpair name offset hoffset]
  · rw [hs.mentioned name hnone hlisted, ht.mentioned name hnone hlisted]
  · rw [hs.absent name habsent, ht.absent name habsent]

variable {table : SymbolTable} {pairs : List (SymbolTable × ModuleName)} (h : Gathers table pairs)
include h

theorem offset?_of_mem {pair : SymbolTable × ModuleName} (hpair : pair ∈ pairs) {name : SymbolName} {offset : Int16}
    (hoffset : pair.1.offset? name = some offset) : table.offset? name = some offset := by
  rw [offset?, h.defined pair hpair name offset hoffset]
  rfl

theorem offset?_eq_none_iff {name : SymbolName} :
    table.offset? name = none ↔ ∀ pair ∈ pairs, pair.1.offset? name = none := by
  rcases name_cases pairs name with ⟨pair, hpair, offset, hoffset⟩ | ⟨hnone, hlisted⟩ | habsent
  · have hsome : table.offset? name = some offset := h.offset?_of_mem hpair hoffset
    refine ⟨fun hnone => ?_, fun hnone => ?_⟩
    · rw [hsome] at hnone
      cases hnone
    · rw [hnone pair hpair] at hoffset
      cases hoffset
  · refine iff_of_true ?_ hnone
    rw [offset?, h.mentioned name hnone hlisted]
    rfl
  · refine iff_of_true ?_ fun pair hpair => offset?_eq_none_of_binding? (habsent pair hpair)
    rw [offset?, h.absent name habsent]
    rfl

theorem merge {other : SymbolTable} {owner : ModuleName} (hfresh : table.collisions other owner = []) :
    Gathers (table.merge other owner) (pairs ++ [(other, owner)]) := by
  rw [collisions_eq_nil_iff] at hfresh
  refine ⟨?_, ?_, ?_⟩
  · intro pair hpair name offset hoffset
    rcases List.mem_append.mp hpair with hpair | hpair
    · rw [getElem?_merge_of_defined (h.offset?_of_mem hpair hoffset)]
      exact h.defined pair hpair name offset hoffset
    · obtain rfl := List.mem_singleton.mp hpair
      have hnew : table.offset? name = none := hfresh name (Option.isSome_of_eq_some hoffset)
      exact getElem?_merge_of_new owner hnew hoffset
  · intro name hnone hlisted
    obtain ⟨hearlier, hother⟩ := List.forall_mem_append.mp hnone
    rw [getElem?_merge_of_not_defined (hother _ (List.mem_singleton_self _))]
    rcases name_cases pairs name with ⟨pair, hpair, offset, hoffset⟩ | ⟨-, hmention⟩ | habsent
    · rw [hearlier pair hpair] at hoffset
      cases hoffset
    · rw [h.mentioned name hearlier hmention, Option.some_or]
    · -- the mention is not in the earlier tables, and so it is in the last one
      obtain ⟨pair, hpair, hsome⟩ := hlisted
      rcases List.mem_append.mp hpair with hpair | hpair
      · rw [habsent pair hpair] at hsome
        cases hsome
      · obtain rfl := List.mem_singleton.mp hpair
        obtain ⟨binding, hbinding⟩ := Option.isSome_iff_exists.mp hsome
        rw [h.absent name habsent, Option.none_or, hbinding]
        rfl
  · intro name hnone
    obtain ⟨hearlier, hother⟩ := List.forall_mem_append.mp hnone
    have hbinding : other.binding? name = none := hother _ (List.mem_singleton_self _)
    rw [getElem?_merge_of_not_defined (offset?_eq_none_of_binding? hbinding), h.absent name hearlier, hbinding]
    rfl

end Gathers

theorem mergeAll_concat (pairs : List (SymbolTable × ModuleName)) (pair : SymbolTable × ModuleName) :
    mergeAll (pairs ++ [pair]) = mergeAll pairs >>= fun table => table.mergeStep pair := by
  rw [mergeAll, List.foldlM_append]
  simp only [List.foldlM_cons, List.foldlM_nil, bind_pure]
  rfl

theorem compatible_concat {pairs : List (SymbolTable × ModuleName)} {pair : SymbolTable × ModuleName} :
    Compatible (pairs ++ [pair]) ↔ Compatible pairs ∧
      ∀ name, (pair.1.offset? name).isSome → ∀ earlier ∈ pairs, earlier.1.offset? name = none := by
  simp only [Compatible, List.pairwise_append, List.pairwise_singleton, true_and, List.mem_singleton, forall_eq]
  refine and_congr_right fun _ => ⟨?_, ?_⟩
  · intro h name hpair earlier hearlier
    rw [← Option.not_isSome_iff_eq_none]
    exact fun hsome => h earlier hearlier name ⟨hsome, hpair⟩
  · rintro h earlier hearlier name ⟨hsome, hpair⟩
    rw [h name hpair earlier hearlier] at hsome
    cases hsome

theorem compatible_iff_of_perm {pairs permuted : List (SymbolTable × ModuleName)} (h : pairs.Perm permuted) :
    Compatible pairs ↔ Compatible permuted :=
  h.pairwise_iff fun hapart name hboth => hapart name hboth.symm

/-- Tables can be merged if no name is defined twice, and otherwise some step fails. -/
theorem mergeAll_cases (pairs : List (SymbolTable × ModuleName)) :
    (Compatible pairs ∧ ∃ table, mergeAll pairs = .ok table ∧ Gathers table pairs) ∨
      (¬Compatible pairs ∧ ∃ errors, mergeAll pairs = .error errors) := by
  induction pairs using List.reverseRecOn with
  | nil => exact .inl ⟨.nil, empty, rfl, .nil⟩
  | append_singleton pairs pair ih =>
    rw [mergeAll_concat, compatible_concat]
    rcases ih with ⟨hcompatible, table, htable, hgathers⟩ | ⟨hnot, errors, herrors⟩
    · rw [htable, ok_bind, mergeStep]
      have hiff : table.collisions pair.1 pair.2 = [] ↔
          ∀ name, (pair.1.offset? name).isSome → ∀ earlier ∈ pairs, earlier.1.offset? name = none := by
        simp only [collisions_eq_nil_iff, hgathers.offset?_eq_none_iff]
      cases hcollisions : table.collisions pair.1 pair.2 with
      | nil => exact .inl ⟨⟨hcompatible, hiff.mp hcollisions⟩, _, rfl, hgathers.merge hcollisions⟩
      | cons error errors =>
        refine .inr ⟨?_, _, rfl⟩
        rintro ⟨-, hfresh⟩
        rw [hiff.mpr hfresh] at hcollisions
        cases hcollisions
    · exact .inr ⟨fun hboth => hnot hboth.1, errors, by rw [herrors, error_bind]⟩

theorem mergeAll_eq_ok_iff {pairs : List (SymbolTable × ModuleName)} {table : SymbolTable} :
    mergeAll pairs = .ok table ↔ Compatible pairs ∧ Gathers table pairs := by
  rcases mergeAll_cases pairs with ⟨hcompatible, found, hfound, hgathers⟩ | ⟨hnot, errors, herrors⟩
  · rw [hfound, Except.ok.injEq]
    refine ⟨?_, fun h => hgathers.unique h.2⟩
    rintro rfl
    exact ⟨hcompatible, hgathers⟩
  · rw [herrors]
    exact iff_of_false (fun h => by cases h) fun h => hnot h.1

theorem exists_mergeAll_iff {pairs : List (SymbolTable × ModuleName)} :
    (∃ table, mergeAll pairs = .ok table) ↔ Compatible pairs := by
  rcases mergeAll_cases pairs with ⟨hcompatible, table, htable, -⟩ | ⟨hnot, errors, herrors⟩
  · exact iff_of_true ⟨table, htable⟩ hcompatible
  · refine iff_of_false ?_ hnot
    rintro ⟨table, htable⟩
    rw [herrors] at htable
    cases htable

/-- Tables can be merged if and only if no name is defined in two of them, whatever their order, and every order
gives the same table: each definition with the module that supplied it, and the names that are only mentioned. -/
theorem mergeAll_perm {pairs permuted : List (SymbolTable × ModuleName)} (h : pairs.Perm permuted) :
    ((∃ table, mergeAll pairs = .ok table) ↔ Compatible pairs) ∧
    ((∃ table, mergeAll permuted = .ok table) ↔ Compatible permuted) ∧
    (Compatible pairs ↔ Compatible permuted) ∧
    ∀ table, mergeAll pairs = .ok table → mergeAll permuted = .ok table ∧ Gathers table pairs := by
  refine ⟨exists_mergeAll_iff, exists_mergeAll_iff, compatible_iff_of_perm h, ?_⟩
  intro table htable
  obtain ⟨hcompatible, hgathers⟩ := mergeAll_eq_ok_iff.mp htable
  have hpermuted : Gathers table permuted := hgathers.of_mem_iff fun pair => h.mem_iff.symm
  exact ⟨mergeAll_eq_ok_iff.mpr ⟨(compatible_iff_of_perm h).mp hcompatible, hpermuted⟩, hgathers⟩

theorem mergeAll_perm_pair : ∃ table,
    mergeAll [(ofSymbols [⟨"helper", .undefined⟩, ⟨"main", .defined 0⟩], "a"),
      (ofSymbols [⟨"ext", .undefined⟩, ⟨"helper", .defined 12⟩], "b")] = .ok table ∧
    mergeAll [(ofSymbols [⟨"ext", .undefined⟩, ⟨"helper", .defined 12⟩], "b"),
      (ofSymbols [⟨"helper", .undefined⟩, ⟨"main", .defined 0⟩], "a")] = .ok table ∧
    table.entries["helper"]? = some ⟨.defined 12, some "b"⟩ ∧ table.entries["ext"]? = some ⟨.undefined, none⟩ := by
  refine ⟨_, rfl, ?_⟩
  obtain ⟨-, -, -, hsame⟩ := mergeAll_perm (List.Perm.swap
    (ofSymbols [⟨"ext", .undefined⟩, ⟨"helper", .defined 12⟩], "b")
    (ofSymbols [⟨"helper", .undefined⟩, ⟨"main", .defined 0⟩], "a") [])
  obtain ⟨hswapped, hgathers⟩ := hsame _ rfl
  refine ⟨hswapped, ?_, ?_⟩
  · exact hgathers.defined _ (List.mem_cons_of_mem _ List.mem_cons_self) "helper" 12 rfl
  · apply hgathers.mentioned "ext"
    · exact List.forall_mem_cons.mpr ⟨rfl, List.forall_mem_singleton.mpr rfl⟩
    · exact ⟨_, List.mem_cons_of_mem _ List.mem_cons_self, rfl⟩

end StackLink.SymbolTable
