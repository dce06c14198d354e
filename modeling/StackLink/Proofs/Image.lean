import StackLink.Proofs.LinkOutcome

/-!
# What a successful link gives

Where no module labels a name twice, pass two records each label where the merge already has it. The table of
the image is then the merged one, and every reference is filled in by what this table holds.
-/
namespace StackLink

def SymbolTable.Holds (table : SymbolTable) (name : SymbolName) (position : Int) (owner : ModuleName) : Prop :=
  ∃ offset : Int16, offset.toInt = position ∧ table.entries[name]? = some ⟨.defined offset, some owner⟩

namespace Link

theorem Mergeable.holds {modules : List Module} (hmerge : Mergeable modules) {placed : Nat × Module}
    (hplaced : placed ∈ layoutFrom 0 modules) {name : SymbolName} {offset : Int16}
    (h : placed.2.offset? name = some offset) :
    (merged modules).Holds name (placed.1 + offset.toInt) placed.2.name := by
  obtain ⟨place, hplace, hposition⟩ := hmerge.offset?_merged hplaced h
  have hdefiner := (bindingFrom_of_defined hmerge.definedOnce hplaced h).2
  refine ⟨place, hposition, ?_⟩
  rw [SymbolTable.getElem?_eq, SymbolTable.offset?_eq_some_iff.mp hplace, definer?_merged hmerge.definitionsFit,
    hdefiner]
  rfl

theorem Mergeable.settled {modules : List Module} (h : Mergeable modules)
    (hunique : ∀ m ∈ modules, (m.code.labels.map Label.name).Nodup) :
    (Filling.start 0 (merged modules)).Settled (itemsOf modules) := by
  intro label hlabel
  refine ⟨(h.known label hlabel).1, ?_⟩
  obtain ⟨-, hfit, honce⟩ := h
  obtain ⟨placed, hplaced, own, hown, rfl⟩ := mem_labelsFrom_itemsOf_iff.mp hlabel
  have hoffset := Module.offset?_of_nodup (hunique _ (mem_of_mem_layoutFrom hplaced)) hown
  have hbinding := (bindingFrom_of_defined honce hplaced hoffset).1
  rw [Offset.ofInt_add_toInt_ofInt] at hbinding
  exact SymbolTable.offset?_eq_some_iff.mpr ((binding?_merged hfit own.name).trans hbinding)

theorem Mergeable.filled_eq {modules : List Module} (h : Mergeable modules)
    (hunique : ∀ m ∈ modules, (m.code.labels.map Label.name).Nodup) (hresolved : Resolved modules) :
    (filled modules).table = merged modules ∧
      (filled modules).bytes = (itemsOf modules).flatMap (Item.content (merged modules)) := by
  refine (h.settled hunique).run ?_
  intro name hname
  obtain ⟨m, hm, hitem⟩ := List.mem_flatMap.mp hname
  exact (isSome_offset?_merged h.definitionsFit).mpr (hresolved m hm name (Code.mem_refs_iff.mpr hitem))

private theorem offset?_eq_none_of_not_defined {m : Module} {name : SymbolName}
    (h : name ∉ m.code.labels.map Label.name ∧ ∀ offset, m.manifest.binding? name ≠ some (.defined offset)) :
    m.offset? name = none := by
  obtain ⟨hlabel, hmanifest⟩ := h
  rw [Module.offset?, Module.binding?_of_not_mem_labels hlabel]
  rcases hbinding : m.manifest.binding? name with _ | _ | offset
  · rfl
  · rfl
  · exact absurd hbinding (hmanifest offset)

private theorem entry_of_not_defined {modules : List Module} (hfit : DefinitionsFit modules) {name : SymbolName}
    {entry : SymbolTable.Entry} (hentry : (merged modules).entries[name]? = some entry)
    (h : ∀ m ∈ modules, m.offset? name = none) : entry = ⟨.undefined, none⟩ := by
  have hdefiner : (merged modules).definer? name = none := by
    rw [definer?_merged hfit, definer?, Option.map_eq_none_iff, List.find?_eq_none]
    intro m hm
    simp [h m hm]
  have hoffset : (merged modules).offset? name = none := by
    rw [← Option.not_isSome_iff_eq_none, isSome_offset?_merged hfit]
    rintro ⟨m, hm, hsome⟩
    simp [h m hm] at hsome
  rw [SymbolTable.getElem?_eq, hdefiner] at hentry
  rw [SymbolTable.offset?_eq] at hoffset
  rcases hbinding : (merged modules).binding? name with _ | _ | offset
  · simp [hbinding] at hentry
  · rw [hbinding] at hentry
    exact (Option.some.inj hentry).symm
  · simp [hbinding, Binding.offset?] at hoffset

end Link

/-- Modules lie one after another, the bytes are those of their leaves, and the table holds each label and each
definition of a manifest where its module lies. All else in the table is undefined and not referred to. -/
theorem link_image {modules : List Module} {image : Image}
    (hunique : ∀ m ∈ modules, (m.code.labels.map Label.name).Nodup) (h : link modules = .ok image) :
    image.placements = modules.mapIdx (fun k m => ⟨m.name, Link.codeSize (modules.take k), m.code.size⟩) ∧
    image.bytes = modules.flatMap (fun m => m.code.items.flatMap (Item.content image.symbols)) ∧
    (∀ m ∈ modules, ∀ name ∈ m.code.refs, ∃ offset, image.symbols.offset? name = some offset) ∧
    (∀ k m, modules[k]? = some m →
      (∀ label ∈ m.code.labels,
        image.symbols.Holds label.name (Link.codeSize (modules.take k) + label.position) m.name) ∧
      ∀ name offset, m.manifest.binding? name = some (.defined offset) → name ∉ m.code.labels.map Label.name →
        image.symbols.Holds name (Link.codeSize (modules.take k) + offset.toInt) m.name) ∧
    ∀ name entry, image.symbols.entries[name]? = some entry →
      (∀ m ∈ modules, name ∉ m.code.labels.map Label.name ∧
        ∀ offset, m.manifest.binding? name ≠ some (.defined offset)) →
      entry = ⟨.undefined, none⟩ ∧ ∀ m ∈ modules, name ∉ m.code.refs := by
  obtain ⟨⟨hmerge, hresolved⟩, rfl⟩ := Link.link_eq_ok_iff.mp h
  obtain ⟨htable, hbytes⟩ := hmerge.filled_eq hunique hresolved
  have hfit := hmerge.definitionsFit
  simp only [Link.imageOf, htable, hbytes]
  have hlayout : Link.layoutFrom 0 modules = modules.mapIdx fun k m => (Link.codeSize (modules.take k), m) := by
    simpa using Link.layoutFrom_eq_mapIdx 0 modules
  refine ⟨?_, ?_, ?_, ?_, ?_⟩
  · rw [hlayout, List.mapIdx_eq_zipIdx_map, List.mapIdx_eq_zipIdx_map, List.map_map]
    rfl
  · rw [Link.itemsOf, List.flatMap_assoc]
  · intro m hm name hname
    exact Option.isSome_iff_exists.mp ((Link.isSome_offset?_merged hfit).mpr (hresolved m hm name hname))
  · intro k m hk
    have hplaced : (Link.codeSize (modules.take k), m) ∈ Link.layoutFrom 0 modules := by
      rw [hlayout, List.mem_mapIdx]
      obtain ⟨hlt, hget⟩ := List.getElem?_eq_some_iff.mp hk
      exact ⟨k, hlt, by rw [hget]⟩
    have hm : m ∈ modules := List.mem_of_getElem? hk
    constructor
    · intro label hlabel
      have hholds := hmerge.holds hplaced (Module.offset?_of_nodup (hunique m hm) hlabel)
      rwa [Offset.toInt_ofInt_of_fits (hmerge.labelsFit m hm label hlabel)] at hholds
    · intro name offset hbinding hname
      apply hmerge.holds hplaced
      rw [Module.offset?_eq_some_iff, Module.binding?_of_not_mem_labels hname]
      exact hbinding
  · intro name entry hentry hnot
    have hnone : ∀ m ∈ modules, m.offset? name = none := fun m hm =>
      Link.offset?_eq_none_of_not_defined (hnot m hm)
    refine ⟨Link.entry_of_not_defined hfit hentry hnone, ?_⟩
    intro m hm hname
    obtain ⟨n, hn, hsome⟩ := hresolved m hm name hname
    rw [hnone n hn] at hsome
    cases hsome

theorem link_image_pair : ∃ image,
    link [⟨"a", [], .deferred (.bytes [23]) (.ref "x")⟩,
      ⟨"b", [⟨"y", .undefined⟩, ⟨"z", .defined (-2)⟩], .seq (.bytes [0]) (.mark "x")⟩] = .ok image ∧
    image.bytes = [23, 4, 0, 0] ∧ image.symbols.Holds "x" 4 "b" ∧ image.symbols.Holds "z" 1 "b" := by
  refine ⟨_, rfl, ?_⟩
  have hunique : ∀ m ∈ ([⟨"a", [], .deferred (.bytes [23]) (.ref "x")⟩,
      ⟨"b", [⟨"y", .undefined⟩, ⟨"z", .defined (-2)⟩], .seq (.bytes [0]) (.mark "x")⟩] : List Module),
      (m.code.labels.map Label.name).Nodup := by decide
  obtain ⟨-, hbytes, -, hsymbols, -⟩ := link_image hunique rfl
  obtain ⟨hlabels, hmanifest⟩ := hsymbols 1 _ rfl
  refine ⟨hbytes.trans (by decide +kernel), ?_, ?_⟩
  · exact hlabels ⟨"x", 1⟩ (by decide)
  · exact hmanifest "z" (-2) rfl (by decide)

end StackLink
