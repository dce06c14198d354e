import StackLink.Proofs.PartialLink
import StackLink.Proofs.Program

/-!
# Names bound more than once

Modules that bind a name in two of them are refused. Within a module the assembler refuses a second label of a
name. The linker takes the last one, and pass two ends with the table that the merge gave it.
-/
namespace StackLink

theorem Filling.binding?_run {state : Filling} {items : List Item}
    (h : ∀ label ∈ Item.labelsFrom state.position items, Offset.Fits label.position) (name : SymbolName) :
    (state.run items).table.binding? name =
      (Manifest.binding? ((Item.labelsFrom state.position items).map Label.symbol) name).or
        (state.table.binding? name) := by
  have hall : (Item.labelsFrom state.position items).filter Label.fits = Item.labelsFrom state.position items :=
    List.filter_eq_self.mpr fun label hlabel => Label.fits_iff.mpr (h label hlabel)
  rw [table_run, hall, SymbolTable.binding?_setAll]

namespace Link

/-- The names that the code of the modules binds, each as often as it does. -/
def boundNames (modules : List Module) : List SymbolName :=
  modules.flatMap fun m => m.code.labels.map Label.name

theorem isSome_offset?_of_bound {m : Module} {name : SymbolName} (h : name ∈ m.code.labels.map Label.name) :
    (m.offset? name).isSome := by
  obtain ⟨label, hlabel, rfl⟩ := List.mem_map.mp h
  obtain ⟨_, _, _, _, hoffset⟩ := Module.offset?_of_mem_labels hlabel
  rw [hoffset, Option.isSome_some]

namespace Mergeable

variable {modules : List Module} (h : Mergeable modules)
include h

/-- Pass two records the labels as it comes to them, and in the end each name is where the merge had it. -/
theorem table_filled : (filled modules).table = merged modules := by
  have hfits : ∀ label ∈ Item.labelsFrom 0 (itemsOf modules), Offset.Fits label.position := fun label hlabel =>
    (h.known label hlabel).1
  apply SymbolTable.ext_binding?
  · intro name
    have hrun : (filled modules).table.binding? name =
        (Manifest.binding? ((Item.labelsFrom 0 (itemsOf modules)).map Label.symbol) name).or
          ((merged modules).binding? name) := Filling.binding?_run hfits name
    rw [hrun]
    cases hbinding : Manifest.binding? ((Item.labelsFrom 0 (itemsOf modules)).map Label.symbol) name with
    | none => exact Option.none_or
    | some binding =>
      rw [Option.some_or, binding?_merged h.definitionsFit, bindingFrom_of_labels h.definedOnce hbinding]
  · intro name
    exact Filling.definer?_run _ _ _

theorem holds_last {placed : Nat × Module} (hplaced : placed ∈ layoutFrom 0 modules) {label : Label}
    (hlabel : label ∈ placed.2.code.labels) :
    ∃ last ∈ placed.2.code.labels, last.name = label.name ∧
      (∀ other ∈ placed.2.code.labels, other.name = label.name → other.position ≤ last.position) ∧
      (filled modules).table.Holds label.name (placed.1 + last.position) placed.2.name := by
  have hfits := h.labelsFit placed.2 (mem_of_mem_layoutFrom hplaced)
  obtain ⟨last, hlast, hname, _, hoffset⟩ := Module.offset?_of_mem_labels hlabel
  have hlastFits := Offset.toInt_ofInt_of_fits (hfits last hlast)
  refine ⟨last, hlast, hname, ?_, ?_⟩
  · intro other hother hotherName
    obtain ⟨furthest, hfurthest, _, hle, hsame⟩ := Module.offset?_of_mem_labels hother
    rw [hotherName, hoffset, Option.some.injEq] at hsame
    have hint := congrArg Int16.toInt hsame
    rw [hlastFits, Offset.toInt_ofInt_of_fits (hfits furthest hfurthest)] at hint
    omega
  · have hholds := h.holds hplaced hoffset
    rwa [h.table_filled, ← hlastFits]

end Mergeable

theorem link_error_of_not_definedOnce {modules : List Module} (h : ¬DefinedOnce modules) :
    ∃ failure, link modules = .error failure := by
  cases hlink : link modules with
  | error failure => exact ⟨failure, rfl⟩
  | ok image => exact absurd (link_eq_ok_iff.mp hlink).1.1.definedOnce h

theorem not_definedOnce_of_bound {modules : List Module} {i j : Nat} (hij : i < j) {m n : Module}
    (hm : modules[i]? = some m) (hn : modules[j]? = some n) {name : SymbolName}
    (hbound : name ∈ m.code.labels.map Label.name) (hbound' : name ∈ n.code.labels.map Label.name) :
    ¬DefinedOnce modules := by
  intro honce
  obtain ⟨hi, rfl⟩ := List.getElem?_eq_some_iff.mp hm
  obtain ⟨hj, rfl⟩ := List.getElem?_eq_some_iff.mp hn
  have hnot := List.pairwise_iff_getElem.mp honce i j hi hj hij name
  exact hnot ⟨isSome_offset?_of_bound hbound, isSome_offset?_of_bound hbound'⟩

theorem DefinedOnce.nodup_boundNames {modules : List Module} (honce : DefinedOnce modules)
    (hunique : ∀ m ∈ modules, (m.code.labels.map Label.name).Nodup) : (boundNames modules).Nodup := by
  have heq : boundNames modules = (itemsOf modules).filterMap Item.labelName? := by
    simp only [boundNames, itemsOf, List.filterMap_flatMap, Code.labels, Item.map_name_labelsFrom]
  rw [heq]
  exact honce.nodup_labelNames hunique

end Link

/-- Modules that bind a name in two of them do not link. Neither do assembled modules that bind a name twice, in
whichever of them. What does link may have a name bound twice within a module, and then the last one counts. -/
theorem link_bound_twice (modules : List Module) :
    (∀ (i j : Nat) (m n : Module) (name : SymbolName), i < j → modules[i]? = some m → modules[j]? = some n →
      name ∈ m.code.labels.map Label.name → name ∈ n.code.labels.map Label.name →
      ∃ failure, link modules = .error failure) ∧
    ((∀ m ∈ modules, ∃ owner statements, assemble owner statements = .ok m) →
      ∀ name, 2 ≤ (Link.boundNames modules).count name → ∃ failure, link modules = .error failure) ∧
    ∀ image, link modules = .ok image → ∀ (k : Nat) (m : Module), modules[k]? = some m → ∀ label ∈ m.code.labels,
      ∃ last ∈ m.code.labels, last.name = label.name ∧
        (∀ other ∈ m.code.labels, other.name = label.name → other.position ≤ last.position) ∧
        image.symbols.Holds label.name (Link.codeSize (modules.take k) + last.position) m.name := by
  refine ⟨?_, ?_, ?_⟩
  · intro i j m n name hij hm hn hbound hbound'
    exact Link.link_error_of_not_definedOnce (Link.not_definedOnce_of_bound hij hm hn hbound hbound')
  · intro hassembled name htwice
    apply Link.link_error_of_not_definedOnce
    intro honce
    have hunique : ∀ m ∈ modules, (m.code.labels.map Label.name).Nodup := by
      intro m hm
      obtain ⟨owner, statements, hassemble⟩ := hassembled m hm
      exact (assembled_of_assemble hassemble).nodup_labels
    have honly := List.nodup_iff_count_le_one.mp (honce.nodup_boundNames hunique) name
    omega
  · intro image hlink k m hk label hlabel
    obtain ⟨⟨hmerge, _⟩, rfl⟩ := Link.link_eq_ok_iff.mp hlink
    have hplaced : (Link.codeSize (modules.take k), m) ∈ Link.layoutFrom 0 modules := Link.mem_layoutFrom_of_getElem? hk
    exact hmerge.holds_last hplaced hlabel

theorem link_bound_twice_pair :
    (∃ failure, link [⟨"a", [], .mark "x"⟩, ⟨"b", [⟨"x", .defined 0⟩], .mark "x"⟩] = .error failure) ∧
    (∃ failure, link [⟨"a", [⟨"x", .defined 0⟩], .mark "x"⟩, ⟨"b", [⟨"x", .defined 0⟩], .mark "x"⟩] = .error failure) ∧
    ∃ image, link [⟨"a", [], .seq (.mark "x") (.seq (.bytes [0]) (.mark "x"))⟩] = .ok image ∧
      image.symbols.Holds "x" 1 "a" := by
  refine ⟨?_, ?_, _, rfl, ?_⟩
  · exact (link_bound_twice _).1 0 1 _ _ "x" (by decide) rfl rfl (by decide) (by decide)
  · refine (link_bound_twice _).2.1 ?_ "x" (by decide)
    simp only [List.mem_cons, List.not_mem_nil, or_false, forall_eq_or_imp, forall_eq]
    exact ⟨⟨"a", [.label ⟨.ident, "x"⟩], by decide +kernel⟩, ⟨"b", [.label ⟨.ident, "x"⟩], by decide +kernel⟩⟩
  · have hlast := (link_bound_twice [⟨"a", [], .seq (.mark "x") (.seq (.bytes [0]) (.mark "x"))⟩]).2.2 _ rfl 0 _ rfl
    obtain ⟨last, hmem, _, hmax, hholds⟩ := hlast ⟨"x", 1⟩ (by decide)
    have hlabels : ∀ label ∈ (Code.seq (.mark "x") (.seq (.bytes [0]) (.mark "x"))).labels, label.position ≤ 1 := by
      decide
    have hposition : last.position = 1 := Int.le_antisymm (hlabels last hmem) (hmax ⟨"x", 1⟩ (by decide) rfl)
    rw [hposition] at hholds
    exact hholds

/-- References to a name that one module binds twice are filled in by the binding before them. -/
theorem link_bound_twice_within_module :
    let modules : List Module := [⟨"a", [], .seq (.mark "x") (.seq (.ref "x") (.seq (.mark "x") (.ref "x")))⟩]
    2 ≤ (Link.boundNames modules).count "x" ∧ ∃ image, link modules = .ok image ∧ image.bytes = [0, 0, 2, 0] := by
  intro modules
  exact ⟨by decide, _, rfl, rfl⟩

end StackLink
