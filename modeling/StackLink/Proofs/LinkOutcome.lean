import StackLink.Proofs.LinkPhases

/-!
# When a link succeeds and how it fails

A link goes wrong in one of three ways, each of which can be told from the modules before linking: a label out
of range in its module, definitions that cannot be merged, or a reference to a name that no module defines. The
last phase finds nothing that the first two have missed, although it records every label anew.
-/
namespace StackLink

namespace Link

theorem mem_labelsFrom_itemsOf_iff {base : Nat} {modules : List Module} {label : Label} :
    label ∈ Item.labelsFrom base (itemsOf modules) ↔
      ∃ placed ∈ layoutFrom base modules, ∃ own ∈ placed.2.code.labels, own.shift placed.1 = label := by
  induction modules generalizing base with
  | nil => simp [itemsOf, Item.labelsFrom, layoutFrom]
  | cons m rest ih =>
    change label ∈ Item.labelsFrom base (m.code.items ++ itemsOf rest) ↔ _
    rw [Item.labelsFrom_append, List.mem_append, Code.span_items, ← Int.natCast_add, ih, Item.labelsFrom_eq base,
      List.mem_map, layoutFrom, List.exists_mem_cons_iff]
    rfl

/-- After a merge without errors pass two finds every label in range and defined. -/
theorem Mergeable.known {modules : List Module} (h : Mergeable modules) :
    (Filling.start 0 (merged modules)).Known (itemsOf modules) := by
  obtain ⟨hlabels, hfit, -⟩ := h
  intro label hlabel
  obtain ⟨⟨base, m⟩, hplaced, own, hown, rfl⟩ := mem_labelsFrom_itemsOf_iff.mp hlabel
  have hm := mem_of_mem_layoutFrom hplaced
  obtain ⟨last, hlast, -, hle, hoffset⟩ := Module.offset?_of_mem_labels hown
  constructor
  · -- the last label of this name is in range where the module lies, and this one is not after it
    have hlastFits := hfit _ hplaced _ _ hoffset
    rw [Offset.toInt_ofInt_of_fits (hlabels m hm last hlast)] at hlastFits
    have hstart := (Item.position_of_mem_labelsFrom hown).1
    obtain ⟨-, hhigh⟩ := hlastFits
    simp only [Label.shift] at hhigh ⊢
    exact ⟨by omega, by omega⟩
  · refine (isSome_offset?_merged hfit).mpr ⟨m, hm, ?_⟩
    rw [Label.name_shift, hoffset, Option.isSome_some]

def unresolved (modules : List Module) : List LinkError :=
  modules.flatMap fun m =>
    (m.code.refs.filter fun name => !modules.any fun n => (n.offset? name).isSome).map fun name =>
      .unresolved name m.name

def filled (modules : List Module) : Filling :=
  (Filling.start 0 (merged modules)).run (itemsOf modules)

theorem link_of_rejected {modules : List Module} {failure : LinkFailure} (h : Rejected modules failure) :
    link modules = .error failure :=
  h.bind _

private theorem missing_merged {modules : List Module} (hfit : DefinitionsFit modules) (code : Code) :
    Filling.missing (merged modules) code.items =
      code.refs.filter fun name => !modules.any fun n => (n.offset? name).isSome := by
  apply List.filter_congr
  intro name _
  rw [← Option.not_isSome]
  congr 1
  rw [Bool.eq_iff_iff, isSome_offset?_merged hfit, List.any_eq_true]
  rfl

/-- The image that mergeable modules give if their references are resolved. -/
def imageOf (modules : List Module) : Image :=
  ⟨(filled modules).bytes, (filled modules).table,
    (layoutFrom 0 modules).map fun placed => ⟨placed.2.name, placed.1, placed.2.code.size⟩⟩

theorem link_of_mergeable {modules : List Module} (h : Mergeable modules) :
    link modules = unlessErrors (unresolved modules) (imageOf modules) := by
  obtain ⟨htable, hnil, hbytes⟩ := fillFrom_eq_run 0 modules (merged modules)
  have herrors : (fillFrom (merged modules) ((layoutFrom 0 modules).map placedAt)).2.2 = unresolved modules := by
    rw [errors_fillFrom h.known]
    simp only [missing_merged h.definitionsFit]
    rfl
  have hplacements : ((layoutFrom 0 modules).map placedAt).map PlacedModule.placement =
      (layoutFrom 0 modules).map fun placed => ⟨placed.2.name, placed.1, placed.2.code.size⟩ := by
    rw [List.map_map]
    rfl
  refine (h.bind _).trans ?_
  change unlessErrors (fillFrom (merged modules) ((layoutFrom 0 modules).map placedAt)).2.2
    (Image.mk (fillFrom (merged modules) ((layoutFrom 0 modules).map placedAt)).2.1
      (fillFrom (merged modules) ((layoutFrom 0 modules).map placedAt)).1 _) = _
  rw [herrors, htable, hplacements]
  cases hunresolved : unresolved modules with
  | nil =>
    rw [hunresolved] at herrors
    rw [hbytes (hnil.mp herrors)]
    rfl
  | cons error errors => rfl

def Resolved (modules : List Module) : Prop :=
  ∀ m ∈ modules, ∀ name ∈ m.code.refs, Defines modules name

theorem unresolved_eq_nil_iff {modules : List Module} : unresolved modules = [] ↔ Resolved modules := by
  simp [unresolved, Resolved, Defines, Option.isSome_iff_ne_none]

theorem link_eq_ok_iff {modules : List Module} {image : Image} :
    link modules = .ok image ↔ (Mergeable modules ∧ Resolved modules) ∧ image = imageOf modules := by
  rcases mergeable_or_rejected modules with hmergeable | ⟨failure, hrejected⟩
  · rw [link_of_mergeable hmergeable, ← unresolved_eq_nil_iff]
    cases unresolved modules with
    | nil => simp [unlessErrors, hmergeable, eq_comm]
    | cons error errors => simp [unlessErrors]
  · rw [link_of_rejected hrejected]
    constructor
    · intro h
      cases h
    · rintro ⟨⟨hmergeable, -⟩, -⟩
      exact absurd hmergeable hrejected.not_mergeable

theorem phase_of_mem_unresolved {modules : List Module} {error : LinkError} (h : error ∈ unresolved modules) :
    error.phase = .substitute := by
  obtain ⟨m, -, herror⟩ := List.mem_flatMap.mp h
  obtain ⟨name, -, rfl⟩ := List.mem_map.mp herror
  rfl

end Link

/-- A link succeeds if and only if labels and definitions are in range, no name is defined twice and every
reference is resolved. Otherwise it reports the first label out of range of each module that has one; or else
errors of the merge; or else each unresolved reference. -/
theorem link_outcome (modules : List Module) :
    ((∃ image, link modules = .ok image) ↔
      Link.LabelsFit modules ∧ Link.DefinitionsFit modules ∧ Link.DefinedOnce modules ∧ Link.Resolved modules) ∧
    (¬Link.LabelsFit modules → link modules = .error ⟨modules.filterMap Link.outlierError?⟩) ∧
    (Link.LabelsFit modules → ¬(Link.DefinitionsFit modules ∧ Link.DefinedOnce modules) →
      ∃ errors, link modules = .error ⟨errors⟩ ∧ errors ≠ [] ∧ ∀ error ∈ errors, error.phase = .merge) ∧
    (Link.LabelsFit modules → Link.DefinitionsFit modules → Link.DefinedOnce modules → ¬Link.Resolved modules →
      link modules = .error ⟨Link.unresolved modules⟩ ∧
        ∀ error ∈ Link.unresolved modules, error.phase = .substitute) := by
  refine ⟨?_, fun hlabels => Link.link_of_rejected (.labels hlabels), ?_, ?_⟩
  · constructor
    · rintro ⟨image, himage⟩
      obtain ⟨⟨⟨hlabels, hfit, honce⟩, hresolved⟩, -⟩ := Link.link_eq_ok_iff.mp himage
      exact ⟨hlabels, hfit, honce, hresolved⟩
    · rintro ⟨hlabels, hfit, honce, hresolved⟩
      exact ⟨_, Link.link_eq_ok_iff.mpr ⟨⟨⟨hlabels, hfit, honce⟩, hresolved⟩, rfl⟩⟩
  · intro hlabels hmerge
    exact ⟨_, Link.link_of_rejected (.merge hlabels hmerge), mt Link.mergeErrors_eq_nil_iff.mp hmerge, fun _ herror =>
      Link.phase_of_mem_errors_mergeFrom herror⟩
  · intro hlabels hfit honce hresolved
    refine ⟨?_, fun error herror => Link.phase_of_mem_unresolved herror⟩
    rw [Link.link_of_mergeable ⟨hlabels, hfit, honce⟩]
    cases hunresolved : Link.unresolved modules with
    | nil => exact absurd (Link.unresolved_eq_nil_iff.mp hunresolved) hresolved
    | cons error errors => rfl

end StackLink
