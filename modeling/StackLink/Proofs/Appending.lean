import StackLink.Proofs.Duplicates
import StackLink.Proofs.Outcome

/-!
# Modules added at the end

Further modules come after those that are there, and what they define was not defined before. So the places, the
bytes and the definitions of the first modules stay as they are in the larger image.
-/
namespace StackLink

namespace Link

theorem errors_filled {modules : List Module} (hmerge : Mergeable modules) (hresolved : Resolved modules) :
    (filled modules).errors = [] := by
  have herrors : (filled modules).errors =
      (Filling.missing (merged modules) (itemsOf modules)).map CodeError.unresolved :=
    hmerge.known.run.1
  have hmissing : Filling.missing (merged modules) (itemsOf modules) = [] := by
    rw [Filling.missing, List.filter_eq_nil_iff]
    intro name hname
    have hitem : Item.ref name ∈ itemsOf modules := by
      obtain ⟨item, hitem, hrefers⟩ := List.mem_filterMap.mp hname
      cases item with
      | ref other => exact Option.some.inj hrefers ▸ hitem
      | bytes payload => cases hrefers
      | label other => cases hrefers
    have hdefined := (isSome_offset?_merged hmerge.definitionsFit).mpr (resolved_iff.mp hresolved name hitem)
    simpa using Option.isSome_iff_ne_none.mp hdefined
  rw [herrors, hmissing, List.map_nil]

/-- Under a table with more definitions modules that link put out the same bytes. -/
theorem bytes_run_of_extends {modules : List Module} (hmerge : Mergeable modules) (hresolved : Resolved modules)
    {table : SymbolTable}
    (h : ∀ name offset, (merged modules).offset? name = some offset → table.offset? name = some offset) :
    ((Filling.start 0 table).run (itemsOf modules)).bytes = (filled modules).bytes := by
  have hstart : (Filling.start 0 (merged modules)).Extends (Filling.start 0 table) := ⟨rfl, h, rfl⟩
  exact (hstart.run (errors_filled hmerge hresolved)).bytes

section Append

variable {first second : List Module} (hfirst : Mergeable first) (hboth : Mergeable (first ++ second))
include hfirst hboth

theorem offset?_merged_append {name : SymbolName} {offset : Int16} (h : (merged first).offset? name = some offset) :
    (merged (first ++ second)).offset? name = some offset := by
  rw [SymbolTable.offset?_eq_some_iff, binding?_merged hfirst.definitionsFit] at h
  rw [SymbolTable.offset?_eq_some_iff, binding?_merged hboth.definitionsFit, bindingFrom_append, h]
  rfl

theorem definer?_merged_append {name : SymbolName} (h : Defines first name) :
    ∃ owner, (merged first).definer? name = some owner ∧
      (merged (first ++ second)).definer? name = some owner := by
  obtain ⟨owner, howner⟩ := Option.ne_none_iff_exists'.mp (mt definer?_eq_none_iff.mp (not_not.mpr h))
  refine ⟨owner, ?_, ?_⟩
  · rw [definer?_merged hfirst.definitionsFit, howner]
  · rw [definer?_merged hboth.definitionsFit, definer?_append, howner, Option.some_or]

theorem bytes_filled_append (hresolved : Resolved first) :
    (filled first).bytes <+: (filled (first ++ second)).bytes := by
  have hitems : itemsOf (first ++ second) = itemsOf first ++ itemsOf second := List.flatMap_append
  have hbytes := bytes_run_of_extends hfirst hresolved fun _ _ => offset?_merged_append hfirst hboth
  rw [← hbytes, filled, hitems, Filling.run_append]
  exact Filling.bytes_prefix_run _ _

end Append

end Link

/-- Modules that link, and still do with others behind them, keep their bytes at the front of the image, their
places, and every definition with the module that supplied it. -/
theorem link_append {first second : List Module} {image larger : Image} (h : link first = .ok image)
    (hlarger : link (first ++ second) = .ok larger) :
    image.bytes <+: larger.bytes ∧ image.placements <+: larger.placements ∧
    ∀ name offset, image.symbols.offset? name = some offset →
      larger.symbols.offset? name = some offset ∧
      ∃ owner, image.symbols.definer? name = some owner ∧ larger.symbols.definer? name = some owner := by
  obtain ⟨⟨hfirst, hresolved⟩, rfl⟩ := Link.link_eq_ok_iff.mp h
  obtain ⟨⟨hboth, -⟩, rfl⟩ := Link.link_eq_ok_iff.mp hlarger
  refine ⟨Link.bytes_filled_append hfirst hboth hresolved, ?_, ?_⟩
  · simp only [Link.imageOf, Link.layoutFrom_append, List.map_append]
    exact List.prefix_append _ _
  · simp only [Link.imageOf, hfirst.table_filled, hboth.table_filled]
    intro name offset hoffset
    have hdefines : Link.Defines first name := by
      rw [← Link.isSome_offset?_merged hfirst.definitionsFit, hoffset, Option.isSome_some]
    exact ⟨Link.offset?_merged_append hfirst hboth hoffset, Link.definer?_merged_append hfirst hboth hdefines⟩

/-- The first module lists a name that only the second one defines, and binds another one twice. -/
theorem link_append_pair :
    let a : Module := ⟨"a", [⟨"y", .undefined⟩, ⟨"z", .defined 9⟩],
      .deferred (.label "x" (.ref "x")) (.seq (.ref "z") (.label "x" (.ref "x")))⟩
    let b : Module := ⟨"b", [], .seq (.ref "x") (.label "y" (.ref "y"))⟩
    ∃ image larger, link [a] = .ok image ∧ link [a, b] = .ok larger ∧ image.bytes = [0, 0, 9, 0, 4, 0] ∧
      image.bytes <+: larger.bytes ∧ image.placements <+: larger.placements ∧
      larger.symbols.offset? "x" = some 4 ∧ larger.symbols.offset? "y" = some 8 ∧
      image.symbols.definer? "x" = some "a" ∧ larger.symbols.definer? "x" = some "a" := by
  intro a b
  have hfirst : (link [a]).toOption.map (fun image => (image.bytes, image.symbols.offset? "x")) =
      some ([0, 0, 9, 0, 4, 0], some 4) := by decide +kernel
  have hboth : (link [a, b]).toOption.map
      (fun larger => (larger.symbols.offset? "y", larger.symbols.definer? "x")) = some (some 8, some "a") := by
    decide +kernel
  obtain ⟨image, himage, hseen⟩ := exists_of_toOption_map hfirst
  obtain ⟨larger, hlarger, hlargerSeen⟩ := exists_of_toOption_map hboth
  obtain ⟨hbytes, hx⟩ := Prod.mk.inj hseen
  obtain ⟨hy, howner⟩ := Prod.mk.inj hlargerSeen
  obtain ⟨hfront, hplacements, hsymbols⟩ := @link_append [a] [b] image larger himage hlarger
  obtain ⟨hoffset, owner, hfound, hsame⟩ := hsymbols "x" 4 hx
  rw [howner] at hsame
  cases hsame
  exact ⟨image, larger, himage, hlarger, hbytes, hfront, hplacements, hoffset, hy, hfound, howner⟩

end StackLink
