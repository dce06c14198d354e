import StackLink.Proofs.Alike
import StackLink.Proofs.Cells
import StackLink.Proofs.ObjectFile
import StackLink.Proofs.PartialLink

/-!
# Linking modules read from object files

A module comes back from its object file with long payloads split. Its cells are the same, and with them all
that a link looks at: the labels and their positions, the references, the names in their order and the bytes.
-/
namespace StackLink

namespace Code

private theorem cells_splitPayload (payload : Bytes) : (splitPayload payload).cells = (bytes payload).cells := by
  induction payload using splitPayload.induct with
  | case1 payload h ih =>
    rw [splitPayload_of_lt h, cells_seq, ih, cells_bytes, cells_bytes, cells_bytes, ← List.map_append,
      List.take_append_drop]
  | case2 payload h => rw [splitPayload_of_le (Nat.le_of_not_lt h)]

theorem cells_split (code : Code) : code.split.cells = code.cells := by
  induction code with
  | bytes payload => exact cells_splitPayload payload
  | ref name => rfl
  | label name inner ih => rw [split, cells_label, cells_label, ih]
  | seq first second ihf ihs => rw [split, cells_seq, cells_seq, ihf, ihs]
  | deferred first second ihf ihs => rw [split, cells_deferred, cells_deferred, ihf, ihs]

end Code

namespace Module

/-- The module as it comes back from its object file. -/
def stored (m : Module) : Module :=
  { m with code := m.code.split }

theorem cells_stored (m : Module) : m.stored.code.cells = m.code.cells :=
  Code.cells_split m.code

theorem alike_stored (m : Module) : Alike m m.stored := by
  have hlabels : m.stored.code.labels = m.code.labels := Code.labels_of_cells m.cells_stored
  refine ⟨rfl, Code.size_of_cells m.cells_stored, ?_⟩
  intro symbol
  rw [binding?_eq, binding?_eq, hlabels]
  rfl

end Module

namespace ObjectFile

structure Storable (m : Module) : Prop where
  written : ∃ data, write m = .ok data
  plain : ∀ symbol ∈ m.manifest, symbol.name.Plain
  depth : m.code.split.depth ≤ 1024

def reload (m : Module) : Except ObjectFileError Module := do
  let data ← write m
  read m.name data

theorem reload_of_storable {m : Module} (h : Storable m) : reload m = .ok m.stored := by
  obtain ⟨⟨data, hdata⟩, hplain, hdepth⟩ := h
  obtain ⟨code, hwrite, hwritten, -⟩ | ⟨name, -, -, hwrite⟩ := write_cases m
  · rw [reload, hwrite, ok_bind, read_eq_ok_iff]
    exact ⟨rfl, hdepth, m.manifest.text, code, sections_of_written hplain, Manifest.parse_text m.name hplain,
      hwritten⟩
  · rw [hwrite] at hdata
    cases hdata

theorem mapM_reload {modules : List Module} (h : ∀ m ∈ modules, Storable m) :
    modules.mapM reload = .ok (modules.map Module.stored) := by
  induction modules with
  | nil => rfl
  | cons m rest ih =>
    obtain ⟨hm, hrest⟩ := List.forall_mem_cons.mp h
    rw [List.mapM_cons, reload_of_storable hm, ok_bind, ih hrest, ok_bind]
    rfl

end ObjectFile

namespace Link

variable (modules : List Module)

theorem alike_stored : List.Forall₂ Module.Alike modules (modules.map Module.stored) := by
  rw [List.forall₂_map_right_iff, List.forall₂_same]
  intro m _
  exact m.alike_stored

theorem sameDefinitions_stored : List.Forall₂ Module.SameDefinitions modules (modules.map Module.stored) :=
  sameDefinitions_of_alike (alike_stored modules)

theorem outliers_stored : (modules.map Module.stored).filterMap outlierError? = modules.filterMap outlierError? := by
  rw [List.filterMap_map]
  congr 1
  funext m
  rw [Function.comp_apply, outlierError?, Code.outlier?, Code.labels_of_cells m.cells_stored]
  rfl

theorem unresolved_stored : unresolved (modules.map Module.stored) = unresolved modules := by
  have hrefs (m : Module) : m.stored.code.refs = m.code.refs := Code.refs_of_cells m.cells_stored
  have hoffset (m : Module) (name : SymbolName) : m.stored.offset? name = m.offset? name :=
    m.alike_stored.offset? name
  simp only [unresolved, List.flatMap_map, List.any_map, Function.comp_def, hrefs, hoffset]
  rfl

theorem filled_stored : filled (modules.map Module.stored) = filled modules := by
  have hcells : (itemsOf (modules.map Module.stored)).flatMap Item.cells = (itemsOf modules).flatMap Item.cells := by
    rw [itemsOf, itemsOf, List.flatMap_map, List.flatMap_assoc, List.flatMap_assoc]
    exact congrArg modules.flatMap (funext Module.cells_stored)
  rw [filled, filled, merged_of_alike (alike_stored modules), ← Filling.run_cells, hcells, Filling.run_cells]

theorem imageOf_stored : imageOf (modules.map Module.stored) = imageOf modules := by
  rw [imageOf, imageOf, filled_stored, placements_of_sameDefinitions (sameDefinitions_stored modules)]

theorem mentionedNames_stored : mentionedNames (modules.map Module.stored) = mentionedNames modules := by
  have hnames (m : Module) : m.stored.code.symbolNames = m.code.symbolNames :=
    Code.symbolNames_of_cells m.cells_stored
  simp only [mentionedNames, List.flatMap_map, hnames]
  rfl

theorem mergeable_or_rejected_stored :
    (Mergeable modules ∧ Mergeable (modules.map Module.stored)) ∨
      ∃ failure, Rejected modules failure ∧ Rejected (modules.map Module.stored) failure :=
  mergeable_or_rejected_of_sameDefinitions (sameDefinitions_stored modules) (outliers_stored modules)

theorem link_stored : link (modules.map Module.stored) = link modules := by
  rcases mergeable_or_rejected_stored modules with ⟨h, hstored⟩ | ⟨failure, h, hstored⟩
  · rw [link_of_mergeable h, link_of_mergeable hstored, unresolved_stored, imageOf_stored]
  · rw [link_of_rejected h, link_of_rejected hstored]

theorem manifest_partialLink_stored (name : ModuleName) :
    (partialLink name (modules.map Module.stored)).map Module.manifest =
      (partialLink name modules).map Module.manifest := by
  rcases mergeable_or_rejected_stored modules with ⟨h, hstored⟩ | ⟨failure, h, hstored⟩
  · rw [partialLink_of_mergeable name h, partialLink_of_mergeable name hstored]
    simp only [Except.map, combined, merged_of_alike (alike_stored modules), mentionedNames_stored]
  · rw [partialLink_of_rejected name h, partialLink_of_rejected name hstored]

end Link

/-- Modules that can be written to object files and read back come back as modules that link to the same image or
fail with the same errors, and combine into a module with the same manifest. -/
theorem link_reload {modules : List Module} (h : ∀ m ∈ modules, ObjectFile.Storable m) :
    ∃ loaded, modules.mapM ObjectFile.reload = .ok loaded ∧ link loaded = link modules ∧
      ∀ name, (partialLink name loaded).map Module.manifest = (partialLink name modules).map Module.manifest :=
  ⟨_, ObjectFile.mapM_reload h, Link.link_stored modules, Link.manifest_partialLink_stored modules⟩

/-- The second module does not come back as it was, since one of its payloads is too long for a node. -/
theorem link_reload_long_payload :
    let a : Module := ⟨"a", [], .label "x" (.ref "x")⟩
    let b : Module := ⟨"b", [⟨"y", .defined (-2)⟩], .seq (.ref "x") (.bytes (List.replicate 65535 0 ++ [7]))⟩
    let loaded : List Module :=
      [a, { b with code := .seq (.ref "x") (.seq (.bytes (List.replicate 65535 0)) (.bytes [7])) }]
    [a, b].mapM ObjectFile.reload = .ok loaded ∧ link loaded = link [a, b] ∧
      (partialLink "c" loaded).map Module.manifest = (partialLink "c" [a, b]).map Module.manifest := by
  intro a b loaded
  have hpayload : Code.splitPayload (List.replicate 65535 0 ++ [7]) =
      .seq (.bytes (List.replicate 65535 0)) (.bytes [7]) := by
    have hlength : (List.replicate 65535 (0 : UInt8)).length = ObjectFile.maxLength := List.length_replicate
    have hlong : ObjectFile.maxLength < (List.replicate 65535 (0 : UInt8) ++ [7]).length := by
      rw [List.length_append, hlength]
      decide
    rw [Code.splitPayload_of_lt hlong, List.take_left' hlength, List.drop_left' hlength]
    exact congrArg _ (Code.splitPayload_of_le (by decide))
  have hcode : b.code.split = .seq (.ref "x") (.seq (.bytes (List.replicate 65535 0)) (.bytes [7])) := by
    simp only [b, Code.split, hpayload]
  have hwritten (m : Module) (hshort : ∀ name ∈ m.code.mentions, ObjectFile.tooLong name = false) :
      ∃ data, ObjectFile.write m = .ok data := by
    obtain ⟨code, hwrite, -⟩ | ⟨name, hname, hlong, -⟩ := ObjectFile.write_cases m
    · exact ⟨_, hwrite⟩
    · rw [hshort name hname] at hlong
      cases hlong
  have ha : ObjectFile.Storable a := ⟨hwritten a (by decide), by decide, by decide⟩
  have hb : ObjectFile.Storable b := by
    refine ⟨hwritten b (by decide), by decide, ?_⟩
    rw [hcode]
    decide
  have hall : ∀ m ∈ [a, b], ObjectFile.Storable m := List.forall_mem_cons.mpr ⟨ha, List.forall_mem_singleton.mpr hb⟩
  have hstored : [a, b].map Module.stored = loaded := by
    rw [List.map_cons, List.map_singleton, Module.stored, Module.stored, hcode]
    rfl
  obtain ⟨found, hfound, hlink, hpartial⟩ := link_reload hall
  rw [ObjectFile.mapM_reload hall, hstored] at hfound ⊢
  cases hfound
  exact ⟨rfl, hlink, hpartial "c"⟩

end StackLink
