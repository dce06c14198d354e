import Mathlib.Data.List.Basic

/-!
# Findings along a list

A report on a list, in its order, for which each element is judged by those before it.
-/
namespace StackLink

variable {α β : Type} {judge : List α → α → Option β}

/-- What is found in a list when each element is judged by those before it. -/
def findings (judge : List α → α → Option β) (items : List α) : List β :=
  items.zipIdx.filterMap fun (item, k) => judge (items.take k) item

theorem findings_concat (items : List α) (item : α) :
    findings judge (items ++ [item]) = findings judge items ++ (judge items item).toList := by
  have hearlier : items.zipIdx.filterMap (fun (earlier, k) => judge ((items ++ [item]).take k) earlier) =
      findings judge items := by
    apply List.filterMap_congr
    intro pair hmem
    have hk : pair.2 < items.length := List.snd_lt_of_mem_zipIdx hmem
    simp only [List.take_append_of_le_length (Nat.le_of_lt hk)]
  rw [findings, List.zipIdx_append, List.filterMap_append, hearlier, Nat.zero_add]
  congr 1
  cases h : judge items item <;> simp [h]

theorem mem_findings_iff {items : List α} {finding : β} :
    finding ∈ findings judge items ↔
      ∃ before item after, items = before ++ item :: after ∧ judge before item = some finding := by
  simp only [findings, List.mem_filterMap, Prod.exists, List.mem_zipIdx_iff_getElem?]
  constructor
  · intro h
    obtain ⟨item, k, hget, hjudge⟩ := h
    obtain ⟨hk, rfl⟩ := List.getElem?_eq_some_iff.mp hget
    exact ⟨items.take k, items[k], items.drop (k + 1), by simp, hjudge⟩
  · intro h
    obtain ⟨before, item, after, rfl, hjudge⟩ := h
    exact ⟨item, before.length, by simp, by simpa using hjudge⟩

theorem findings_ne_nil_iff {items : List α} :
    findings judge items ≠ [] ↔
      ∃ before item after, items = before ++ item :: after ∧ (judge before item).isSome := by
  constructor
  · intro hne
    obtain ⟨finding, hfinding⟩ := List.exists_mem_of_ne_nil _ hne
    obtain ⟨before, item, after, hitems, hjudge⟩ := mem_findings_iff.mp hfinding
    exact ⟨before, item, after, hitems, by rw [hjudge, Option.isSome_some]⟩
  · intro h
    obtain ⟨before, item, after, hitems, hsome⟩ := h
    obtain ⟨finding, hjudge⟩ := Option.isSome_iff_exists.mp hsome
    exact List.ne_nil_of_mem (mem_findings_iff.mpr ⟨before, item, after, hitems, hjudge⟩)

end StackLink
