import Mathlib.Data.List.Forall2
import StackLink.Proofs.LinkOutcome

/-!
# Modules that the first phases cannot tell apart

Placing modules and merging their tables goes by the name of each module, by its size and by what it says of
names. Modules alike in these are placed and merged alike, whatever their code holds. If they only define the same
names alike, then the merged tables do so too, and the merge fails for the same reasons.
-/
namespace StackLink

structure Module.Alike (m n : Module) : Prop where
  name : n.name = m.name
  size : n.code.size = m.code.size
  binding? : ∀ symbol, n.binding? symbol = m.binding? symbol

/-- Modules that may differ in the names which they mention and do not define. -/
structure Module.SameDefinitions (m n : Module) : Prop where
  name : n.name = m.name
  size : n.code.size = m.code.size
  offset? : ∀ symbol, n.offset? symbol = m.offset? symbol

namespace Module.Alike

theorem refl (m : Module) : Alike m m :=
  ⟨rfl, rfl, fun _ => rfl⟩

variable {m n : Module} (h : Alike m n)
include h

theorem offset? (symbol : SymbolName) : n.offset? symbol = m.offset? symbol := by
  rw [Module.offset?, Module.offset?, h.binding?]

theorem sameDefinitions : SameDefinitions m n :=
  ⟨h.name, h.size, h.offset?⟩

theorem table : n.table = m.table := by
  apply SymbolTable.ext_binding?
  · intro symbol
    rw [binding?_table, binding?_table, h.binding?]
  · intro symbol
    rw [definer?_table, definer?_table]

end Module.Alike

theorem Module.SameDefinitions.table {m n : Module} (h : SameDefinitions m n) :
    SymbolTable.SameDefinitions m.table n.table := by
  refine ⟨?_, ?_⟩
  · intro symbol
    rw [offset?_table, offset?_table, h.offset?]
  · intro symbol
    rw [definer?_table, definer?_table]

namespace Link

section Alike

variable {first second : List Module} (h : List.Forall₂ Module.Alike first second)
include h

private theorem mergeFrom_of_alike (base : Nat) (table : SymbolTable) :
    mergeFrom table ((layoutFrom base second).map placedAt) =
      mergeFrom table ((layoutFrom base first).map placedAt) := by
  induction h generalizing base table with
  | nil => rfl
  | @cons m n _ _ hm _ ih =>
    have habsolute : absolute (placedAt (base, n)) = absolute (placedAt (base, m)) := by
      change n.table.relocate base n.name = m.table.relocate base m.name
      rw [hm.table, hm.name]
    rw [layoutFrom, layoutFrom, List.map_cons, List.map_cons, mergeFrom, mergeFrom, habsolute, hm.size]
    simp only [ih]
    simp only [placedAt, hm.name]

theorem merged_of_alike : merged second = merged first :=
  congrArg Prod.fst (mergeFrom_of_alike h 0 .empty)

theorem sameDefinitions_of_alike : List.Forall₂ Module.SameDefinitions first second :=
  h.imp fun _ _ hm => hm.sameDefinitions

end Alike

section SameDefinitions

variable {first second : List Module} (h : List.Forall₂ Module.SameDefinitions first second)
include h

/-- One module after another, the merges find the same wrong and stay with the same definitions. -/
private theorem mergeFrom_of_sameDefinitions (base : Nat) {table same : SymbolTable}
    (htable : SymbolTable.SameDefinitions table same) :
    SymbolTable.SameDefinitions (mergeFrom table ((layoutFrom base first).map placedAt)).1
        (mergeFrom same ((layoutFrom base second).map placedAt)).1 ∧
      (mergeFrom same ((layoutFrom base second).map placedAt)).2 =
        (mergeFrom table ((layoutFrom base first).map placedAt)).2 := by
  induction h generalizing base table same with
  | nil => exact ⟨htable, rfl⟩
  | @cons m n _ _ hm _ ih =>
    rw [layoutFrom, layoutFrom, List.map_cons, List.map_cons, hm.size]
    by_cases hfits : m.table.FitsAt base
    · have hshifted := hm.table.shifted base
      obtain ⟨hrest, herrors⟩ := ih (base + m.code.size) (htable.merge hshifted m.name)
      rw [mergeFrom_of_fitsAt hfits, mergeFrom_of_fitsAt ((hm.table.fitsAt_iff base).mpr hfits), hm.name]
      refine ⟨hrest, ?_⟩
      simp only [htable.collisions hshifted, herrors]
    · obtain ⟨hrest, herrors⟩ := ih (base + m.code.size) htable
      have hsame : ¬n.table.FitsAt base := mt (hm.table.fitsAt_iff base).mp hfits
      rw [mergeFrom_of_not_fitsAt hfits, mergeFrom_of_not_fitsAt hsame, hm.name]
      refine ⟨hrest, ?_⟩
      simp only [hm.table.outOfRange, herrors]

theorem merged_of_sameDefinitions : SymbolTable.SameDefinitions (merged first) (merged second) :=
  (mergeFrom_of_sameDefinitions h 0 (.refl .empty)).1

theorem mergeErrors_of_sameDefinitions : mergeErrors second = mergeErrors first :=
  (mergeFrom_of_sameDefinitions h 0 (.refl .empty)).2

theorem fit_of_sameDefinitions :
    DefinitionsFit second ∧ DefinedOnce second ↔ DefinitionsFit first ∧ DefinedOnce first := by
  rw [← mergeErrors_eq_nil_iff, mergeErrors_of_sameDefinitions h, mergeErrors_eq_nil_iff]

/-- If they also have the same labels out of range, they get past the merge together or fail alike before it is done. -/
theorem mergeable_or_rejected_of_sameDefinitions
    (houtliers : second.filterMap outlierError? = first.filterMap outlierError?) :
    (Mergeable first ∧ Mergeable second) ∨ ∃ failure, Rejected first failure ∧ Rejected second failure := by
  have hlabelsIff : LabelsFit second ↔ LabelsFit first := by
    rw [← outliers_eq_nil_iff, houtliers, outliers_eq_nil_iff]
  have hmergeIff := fit_of_sameDefinitions h
  rcases mergeable_or_rejected first with hmergeable | ⟨_, hlabels | ⟨hlabels, hmerge⟩⟩
  · obtain ⟨hfit, honce⟩ := hmergeIff.mpr ⟨hmergeable.definitionsFit, hmergeable.definedOnce⟩
    exact .inl ⟨hmergeable, hlabelsIff.mpr hmergeable.labelsFit, hfit, honce⟩
  · have hother : Rejected second ⟨_⟩ := .labels (mt hlabelsIff.mp hlabels)
    rw [houtliers] at hother
    exact .inr ⟨_, .labels hlabels, hother⟩
  · have hother : Rejected second ⟨_⟩ := .merge (hlabelsIff.mpr hlabels) (mt hmergeIff.mp hmerge)
    rw [mergeErrors_of_sameDefinitions h] at hother
    exact .inr ⟨_, .merge hlabels hmerge, hother⟩

theorem any_offset?_of_sameDefinitions (name : SymbolName) :
    (second.any fun n => (n.offset? name).isSome) = first.any fun m => (m.offset? name).isSome := by
  induction h with
  | nil => rfl
  | cons hm _ ih => rw [List.any_cons, List.any_cons, hm.offset?, ih]

theorem defines_of_sameDefinitions {name : SymbolName} : Defines second name ↔ Defines first name := by
  have hany := any_offset?_of_sameDefinitions h name
  rw [Bool.eq_iff_iff, List.any_eq_true, List.any_eq_true] at hany
  exact hany

theorem placements_of_sameDefinitions (base : Nat) :
    ((layoutFrom base second).map fun placed => (⟨placed.2.name, placed.1, placed.2.code.size⟩ : Placement)) =
      (layoutFrom base first).map fun placed => ⟨placed.2.name, placed.1, placed.2.code.size⟩ := by
  induction h generalizing base with
  | nil => rfl
  | cons hm _ ih => rw [layoutFrom, layoutFrom, List.map_cons, List.map_cons, hm.size, ih, hm.name]

end SameDefinitions

end Link
end StackLink
