import Mathlib.Data.List.Induction
import StackLink.Proofs.Measure

/-!
# Pass one, exactly

Pass one either records every label of the code or stops at the first that is out of range, with those before it
recorded. A second run finds what the first one left, and deferred code is measured like any other.
-/
namespace StackLink

/-- The labels among items are in range, or there is a first one that is not. -/
theorem Item.labelsFrom_cases (position : Int) (items : List Item) :
    (∀ label ∈ labelsFrom position items, Offset.Fits label.position) ∨
      ∃ before name after, items = before ++ .label name :: after ∧
        (∀ label ∈ labelsFrom position before, Offset.Fits label.position) ∧
        ¬Offset.Fits (position + span before) := by
  induction items using List.reverseRecOn with
  | nil =>
    left
    intro label hlabel
    cases hlabel
  | append_singleton items item ih =>
    rcases ih with hall | ⟨before, name, after, rfl, hbefore, hbad⟩
    · rw [labelsFrom_append]
      cases item with
      | bytes payload => exact .inl (by simpa [labelsFrom] using hall)
      | ref name => exact .inl (by simpa [labelsFrom] using hall)
      | label name =>
        by_cases hfits : Offset.Fits (position + span items)
        · left
          intro label hlabel
          rcases List.mem_append.mp hlabel with hlabel | hlabel
          · exact hall label hlabel
          · obtain rfl := List.mem_singleton.mp hlabel
            exact hfits
        · exact .inr ⟨items, name, [], rfl, hall, hfits⟩
    · refine .inr ⟨before, name, after ++ [item], ?_, hbefore, hbad⟩
      rw [List.append_assoc, List.cons_append]

namespace Code

theorem measureAt_of_outlier {code : Code} {position : Int} {before after : List Item} {name : SymbolName}
    (hitems : code.items = before ++ .label name :: after)
    (hbefore : ∀ label ∈ Item.labelsFrom position before, Offset.Fits label.position)
    (hbad : ¬Offset.Fits (position + Item.span before)) (table : SymbolTable) :
    code.measureAt position table =
      (table.setAll ((Item.labelsFrom position before).map Label.symbol),
        .error (.outOfRange name (position + Item.span before))) := by
  have hfits : ∀ label ∈ Item.labelsFrom position before, label.fits = true := fun label hlabel =>
    Label.fits_iff.mpr (hbefore label hlabel)
  have houtlier : (⟨name, position + Item.span before⟩ : Label).fits = false := decide_eq_false hbad
  have hlabels : Item.labelsFrom position code.items = Item.labelsFrom position before ++
      ⟨name, position + Item.span before⟩ :: Item.labelsFrom (position + Item.span before) after := by
    rw [hitems, Item.labelsFrom_append, Item.labelsFrom]
  have htaken : (Item.labelsFrom position code.items).takeWhile Label.fits = Item.labelsFrom position before := by
    rw [hlabels, List.takeWhile_append_of_pos hfits, List.takeWhile_cons_of_neg (by simp [houtlier]), List.append_nil]
  have hfound : (Item.labelsFrom position code.items).find? (fun label => !label.fits) =
      some ⟨name, position + Item.span before⟩ := by
    have hnone : (Item.labelsFrom position before).find? (fun label => !label.fits) = none := by simpa using hfits
    rw [hlabels, List.find?_append, hnone, Option.none_or, List.find?_cons_of_pos (by simp [houtlier])]
  rw [measureAt_eq, htaken, hfound]

/-- Pass one records each label in turn and returns the size, or stops at the first label out of range with those
before it recorded. It leaves definers alone, a second run changes nothing, and deferred code counts like any other. -/
theorem measure_exact (code : Code) (base : Int16) (table : SymbolTable) :
    ((∀ label ∈ Item.labelsFrom base.toInt code.items, Offset.Fits label.position) ∧
        code.measure base table =
          (table.setAll ((Item.labelsFrom base.toInt code.items).map Label.symbol), .ok code.size) ∨
      ∃ before name after, code.items = before ++ .label name :: after ∧
        (∀ label ∈ Item.labelsFrom base.toInt before, Offset.Fits label.position) ∧
        ¬Offset.Fits (base.toInt + Item.span before) ∧
        code.measure base table =
          (table.setAll ((Item.labelsFrom base.toInt before).map Label.symbol),
            .error (.outOfRange name (base.toInt + Item.span before)))) ∧
    (∀ name, (code.measure base table).1.definer? name = table.definer? name) ∧
    code.measure base (code.measure base table).1 = code.measure base table ∧
    code.release.measure base table = code.measure base table := by
  refine ⟨?_, ?_, ?_, ?_⟩
  · rcases Item.labelsFrom_cases base.toInt code.items with hall | ⟨before, name, after, hitems, hbefore, hbad⟩
    · exact .inl ⟨hall, measureAt_of_fit hall table⟩
    · exact .inr ⟨before, name, after, hitems, hbefore, hbad, measureAt_of_outlier hitems hbefore hbad table⟩
  · intro name
    rw [measure, measureAt_eq, SymbolTable.definer?_setAll]
  · simp only [measure, measureAt_eq, SymbolTable.setAll_setAll]
  · simp only [measure, measureAt_eq, items_release, size_release]

end Code
end StackLink
