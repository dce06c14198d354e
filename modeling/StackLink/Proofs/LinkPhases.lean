import StackLink.Link
import StackLink.Proofs.Filling
import StackLink.Proofs.Measure
import StackLink.Proofs.Merge

/-!
# The phases of a link

Each phase of a link is described by the modules alone: where they lie, what they say of names, and their
items one after another. Below `base` is where the first of the modules starts.
-/
namespace StackLink

namespace Link

def layoutFrom (base : Nat) : List Module → List (Nat × Module)
  | [] => []
  | m :: rest => (base, m) :: layoutFrom (base + m.code.size) rest

def codeSize : List Module → Nat
  | [] => 0
  | m :: rest => m.code.size + codeSize rest

def itemsOf (modules : List Module) : List Item :=
  modules.flatMap fun m => m.code.items

@[simp] theorem codeSize_nil : codeSize [] = 0 := rfl

@[simp] theorem codeSize_cons (m : Module) (modules : List Module) :
    codeSize (m :: modules) = m.code.size + codeSize modules := rfl

@[simp] theorem codeSize_append (first second : List Module) :
    codeSize (first ++ second) = codeSize first + codeSize second := by
  induction first with
  | nil => rw [List.nil_append, codeSize_nil, Nat.zero_add]
  | cons m rest ih => rw [List.cons_append, codeSize_cons, codeSize_cons, ih, Nat.add_assoc]

theorem layoutFrom_append (base : Nat) (first second : List Module) :
    layoutFrom base (first ++ second) = layoutFrom base first ++ layoutFrom (base + codeSize first) second := by
  induction first generalizing base with
  | nil => simp [layoutFrom]
  | cons m rest ih => simp [layoutFrom, ih, Nat.add_assoc]

theorem layoutFrom_eq_mapIdx (base : Nat) (modules : List Module) :
    layoutFrom base modules = modules.mapIdx fun k m => (base + codeSize (modules.take k), m) := by
  induction modules generalizing base with
  | nil => rfl
  | cons m rest ih =>
    rw [layoutFrom, ih, List.mapIdx_cons]
    simp [Nat.add_assoc]

theorem mem_of_mem_layoutFrom {base : Nat} {modules : List Module} {placed : Nat × Module}
    (h : placed ∈ layoutFrom base modules) : placed.2 ∈ modules := by
  induction modules generalizing base with
  | nil => cases h
  | cons m rest ih =>
    rcases List.mem_cons.mp h with rfl | h
    · exact List.mem_cons_self
    · exact List.mem_cons_of_mem _ (ih h)

theorem mem_layoutFrom_of_getElem? {modules : List Module} {k : Nat} {m : Module} (h : modules[k]? = some m) :
    (codeSize (modules.take k), m) ∈ layoutFrom 0 modules := by
  rw [layoutFrom_eq_mapIdx, List.mem_mapIdx]
  obtain ⟨hlt, hget⟩ := List.getElem?_eq_some_iff.mp h
  exact ⟨k, hlt, by rw [hget, Nat.zero_add]⟩

theorem exists_mem_layoutFrom {base : Nat} {modules : List Module} {m : Module} (h : m ∈ modules) :
    ∃ start, (start, m) ∈ layoutFrom base modules := by
  induction modules generalizing base with
  | nil => cases h
  | cons n rest ih =>
    rcases List.mem_cons.mp h with rfl | h
    · exact ⟨base, List.mem_cons_self⟩
    · obtain ⟨start, hstart⟩ := ih h
      exact ⟨start, List.mem_cons_of_mem _ hstart⟩

@[simp] theorem span_itemsOf (modules : List Module) : Item.span (itemsOf modules) = codeSize modules := by
  induction modules with
  | nil => rfl
  | cons m rest ih =>
    change Item.span (m.code.items ++ itemsOf rest) = _
    rw [Item.span_append, Code.span_items, ih, codeSize_cons]

def outlierError? (m : Module) : Option LinkError :=
  m.code.outlier?.map fun label => .outOfRange label.name m.name label.position .measure

/-- A module whose labels are in range, in its place. -/
def placedAt (placed : Nat × Module) : PlacedModule :=
  ⟨placed.2, placed.2.table, placed.1, placed.2.code.size⟩

theorem errors_placeFrom (base : Nat) (modules : List Module) :
    (placeFrom base modules).2 = modules.filterMap outlierError? := by
  induction modules generalizing base with
  | nil => rfl
  | cons m rest ih =>
    rw [placeFrom, Module.measure_eq]
    cases h : m.code.outlier? with
    | none =>
      have hnone : outlierError? m = none := by rw [outlierError?, h, Option.map_none]
      rw [List.filterMap_cons_none hnone]
      exact ih _
    | some label =>
      have hsome : outlierError? m = some (.outOfRange label.name m.name label.position .measure) := by
        rw [outlierError?, h, Option.map_some]
      rw [List.filterMap_cons_some hsome]
      exact congrArg _ (ih _)

theorem placed_placeFrom {base : Nat} {modules : List Module} (h : ∀ m ∈ modules, m.code.outlier? = none) :
    (placeFrom base modules).1 = (layoutFrom base modules).map placedAt := by
  induction modules generalizing base with
  | nil => rfl
  | cons m rest ih =>
    rw [placeFrom, Module.measure_eq, h m List.mem_cons_self, layoutFrom, List.map_cons]
    exact congrArg _ (ih fun n hn => h n (List.mem_cons_of_mem _ hn))

/-- Every label of every module is in range from the start of its module. -/
def LabelsFit (modules : List Module) : Prop :=
  ∀ m ∈ modules, ∀ label ∈ m.code.labels, Offset.Fits label.position

theorem outlier?_of_labelsFit {modules : List Module} (h : LabelsFit modules) {m : Module} (hm : m ∈ modules) :
    m.code.outlier? = none :=
  Code.outlier?_eq_none_iff.mpr (h m hm)

theorem outliers_eq_nil_iff {modules : List Module} : modules.filterMap outlierError? = [] ↔ LabelsFit modules := by
  rw [List.filterMap_eq_nil_iff]
  refine forall₂_congr fun m _ => ?_
  rw [outlierError?, Option.map_eq_none_iff, Code.outlier?_eq_none_iff]

theorem place_of_labelsFit {modules : List Module} (h : LabelsFit modules) :
    place modules = .ok ((layoutFrom 0 modules).map placedAt) := by
  change unlessErrors (placeFrom 0 modules).2 (placeFrom 0 modules).1 = _
  rw [errors_placeFrom, outliers_eq_nil_iff.mpr h, placed_placeFrom fun m hm => outlier?_of_labelsFit h hm]
  rfl

theorem place_of_not_labelsFit {modules : List Module} (h : ¬LabelsFit modules) :
    place modules = .error ⟨modules.filterMap outlierError?⟩ := by
  change unlessErrors (placeFrom 0 modules).2 (placeFrom 0 modules).1 = _
  rw [errors_placeFrom]
  cases herrors : modules.filterMap outlierError? with
  | nil => exact absurd (outliers_eq_nil_iff.mp herrors) h
  | cons error errors => rfl

/-- Every definition of every module is in range where its module lies. -/
def FitFrom (base : Nat) (modules : List Module) : Prop :=
  ∀ placed ∈ layoutFrom base modules, ∀ name offset,
    placed.2.offset? name = some offset → Offset.Fits (placed.1 + offset.toInt)

def DefinitionsFit (modules : List Module) : Prop :=
  FitFrom 0 modules

def Defines (modules : List Module) (name : SymbolName) : Prop :=
  ∃ m ∈ modules, (m.offset? name).isSome

def DefinedOnce (modules : List Module) : Prop :=
  modules.Pairwise fun m n => ∀ name, ¬((m.offset? name).isSome ∧ (n.offset? name).isSome)

structure Mergeable (modules : List Module) : Prop where
  labelsFit : LabelsFit modules
  definitionsFit : DefinitionsFit modules
  definedOnce : DefinedOnce modules

def bindingFrom (base : Nat) (name : SymbolName) : List Module → Option Binding
  | [] => none
  | m :: rest =>
    Binding.join ((m.binding? name).map (SymbolTable.moved base)) (bindingFrom (base + m.code.size) name rest)

def definer? (name : SymbolName) (modules : List Module) : Option ModuleName :=
  (modules.find? fun m => (m.offset? name).isSome).map Module.name

theorem bindingFrom_append (base : Nat) (name : SymbolName) (first second : List Module) :
    bindingFrom base name (first ++ second) =
      Binding.join (bindingFrom base name first) (bindingFrom (base + codeSize first) name second) := by
  induction first generalizing base with
  | nil => simp [bindingFrom]
  | cons m rest ih => simp [bindingFrom, ih, Binding.join_assoc, Nat.add_assoc]

theorem bindingFrom_add (base start : Nat) (name : SymbolName) (modules : List Module) :
    bindingFrom (base + start) name modules =
      (bindingFrom start name modules).map (SymbolTable.moved base) := by
  induction modules generalizing start with
  | nil => rfl
  | cons m rest ih =>
    rw [bindingFrom, bindingFrom, Nat.add_assoc, ih, Binding.map_moved_join, Option.map_map]
    congr 2
    funext binding
    rw [Function.comp_apply, SymbolTable.moved_moved, Int.natCast_add]

theorem isSome_offset?_bindingFrom {base : Nat} {name : SymbolName} {modules : List Module} :
    ((bindingFrom base name modules).bind Binding.offset?).isSome ↔ Defines modules name := by
  induction modules generalizing base with
  | nil => simp [bindingFrom, Defines]
  | cons m rest ih =>
    rw [bindingFrom, Binding.join_bind_offset?, SymbolTable.offset?_map_moved, Option.isSome_or, Option.isSome_map,
      Bool.or_eq_true, ih, Defines, Defines, List.exists_mem_cons_iff]
    rfl

theorem bindingFrom_eq_none_iff {base : Nat} {name : SymbolName} {modules : List Module} :
    bindingFrom base name modules = none ↔ ∀ m ∈ modules, m.binding? name = none := by
  induction modules generalizing base with
  | nil => simp [bindingFrom]
  | cons m rest ih => simp [bindingFrom, Binding.join_eq_none_iff, ih]

/-- A name that one module defines is bound where that module, in its place, has it. -/
theorem bindingFrom_of_defined {base : Nat} {modules : List Module} {placed : Nat × Module} {name : SymbolName}
    {offset : Int16} (honce : DefinedOnce modules) (hplaced : placed ∈ layoutFrom base modules)
    (h : placed.2.offset? name = some offset) :
    bindingFrom base name modules = some (.defined (Int16.ofInt (placed.1 + offset.toInt))) ∧
      definer? name modules = some placed.2.name := by
  induction modules generalizing base with
  | nil => cases hplaced
  | cons m rest ih =>
    obtain ⟨hfirst, hrest⟩ := List.pairwise_cons.mp honce
    rcases List.mem_cons.mp hplaced with rfl | hlater
    · have hbinding : m.binding? name = some (.defined offset) := by
        rw [← Module.binding?_table, ← SymbolTable.offset?_eq_some_iff, Module.offset?_table]
        exact h
      have hsome : (m.offset? name).isSome := by
        rw [show m.offset? name = some offset from h, Option.isSome_some]
      constructor
      · rw [bindingFrom, hbinding]
        rfl
      · simp only [definer?, List.find?_cons, hsome, Option.map_some]
    · -- the first module says at most that the name is undefined
      have hnone : m.offset? name = none := by
        cases hm : m.offset? name with
        | none => rfl
        | some other =>
          have hboth := hfirst _ (mem_of_mem_layoutFrom hlater) name
          rw [hm, h] at hboth
          exact absurd ⟨rfl, rfl⟩ hboth
      obtain ⟨hbinding, hdefiner⟩ := ih hrest hlater
      constructor
      · rw [bindingFrom, hbinding]
        rcases hm : m.binding? name with _ | _ | found
        · rfl
        · rfl
        · simp [Module.offset?, hm, Binding.offset?] at hnone
      · rw [definer?, List.find?_cons_of_neg (by simp [hnone])]
        exact hdefiner

theorem fitsAt_table_iff {m : Module} {base : Int} :
    m.table.FitsAt base ↔ ∀ name offset, m.offset? name = some offset → Offset.Fits (base + offset.toInt) := by
  simp only [SymbolTable.FitsAt, Module.offset?_table]

theorem isSome_offset?_shifted (m : Module) (base : Int) (name : SymbolName) :
    ((m.table.shifted base).offset? name).isSome = (m.offset? name).isSome := by
  rw [SymbolTable.offset?_shifted, Option.isSome_map, Module.offset?_table]

theorem mergeFrom_of_fitsAt {base : Nat} {m : Module} (h : m.table.FitsAt base) (table : SymbolTable)
    (rest : List PlacedModule) :
    mergeFrom table (placedAt (base, m) :: rest) =
      ((mergeFrom (table.merge (m.table.shifted base) m.name) rest).1,
        table.collisions (m.table.shifted base) m.name ++
          (mergeFrom (table.merge (m.table.shifted base) m.name) rest).2) := by
  have habsolute : absolute (placedAt (base, m)) = .ok (m.table.shifted base) :=
    SymbolTable.relocate_of_fitsAt m.name h
  rw [mergeFrom, habsolute]
  rfl

theorem mergeFrom_of_not_fitsAt {base : Nat} {m : Module} (h : ¬m.table.FitsAt base) (table : SymbolTable)
    (rest : List PlacedModule) :
    mergeFrom table (placedAt (base, m) :: rest) =
      ((mergeFrom table rest).1, m.table.outOfRange base m.name ++ (mergeFrom table rest).2) := by
  have habsolute : absolute (placedAt (base, m)) = .error (m.table.outOfRange base m.name) :=
    (SymbolTable.relocate_of_not_fitsAt m.name h).1
  rw [mergeFrom, habsolute]

/-- What merging makes of a table, whether or not names collide. -/
theorem table_mergeFrom {base : Nat} {modules : List Module} (table : SymbolTable) (h : FitFrom base modules)
    (name : SymbolName) :
    (mergeFrom table ((layoutFrom base modules).map placedAt)).1.binding? name =
        Binding.join (table.binding? name) (bindingFrom base name modules) ∧
      (mergeFrom table ((layoutFrom base modules).map placedAt)).1.definer? name =
        if table.offset? name = none then (definer? name modules).or (table.definer? name)
        else table.definer? name := by
  induction modules generalizing base table with
  | nil => simp [layoutFrom, mergeFrom, bindingFrom, definer?]
  | cons m rest ih =>
    obtain ⟨hfirst, hrest⟩ := List.forall_mem_cons.mp h
    obtain ⟨hbinding, hdefiner⟩ := ih (table.merge (m.table.shifted base) m.name) hrest
    rw [layoutFrom, List.map_cons, mergeFrom_of_fitsAt (fitsAt_table_iff.mpr hfirst)]
    constructor
    · rw [hbinding, SymbolTable.binding?_merge, SymbolTable.binding?_shifted, Module.binding?_table,
        Binding.join_assoc, bindingFrom]
    · rw [hdefiner, SymbolTable.offset?_merge, SymbolTable.definer?_merge, isSome_offset?_shifted]
      -- a name that the table defines keeps its definer, and else the first module comes before the rest
      cases htable : table.offset? name with
      | some found => simp
      | none =>
        cases hname : m.offset? name with
        | none => simp [definer?, hname]
        | some offset => simp [definer?, hname]

theorem phase_of_mem_errors_mergeFrom {table : SymbolTable} {placed : List PlacedModule} {error : LinkError}
    (h : error ∈ (mergeFrom table placed).2) : error.phase = .merge := by
  induction placed generalizing table with
  | nil => cases h
  | cons first rest ih =>
    rw [mergeFrom] at h
    cases habsolute : absolute first with
    | ok symbols =>
      rw [habsolute] at h
      rcases List.mem_append.mp h with h | h
      · exact SymbolTable.phase_of_mem_collisions h
      · exact ih h
    | error errors =>
      rw [habsolute] at h
      rcases List.mem_append.mp h with h | h
      · rw [absolute, SymbolTable.relocate] at habsolute
        split at habsolute
        · cases habsolute
        · cases habsolute
          exact SymbolTable.phase_of_mem_outOfRange h
      · exact ih h

theorem errors_mergeFrom_eq_nil_iff {base : Nat} {modules : List Module} {table : SymbolTable} :
    (mergeFrom table ((layoutFrom base modules).map placedAt)).2 = [] ↔
      FitFrom base modules ∧
      (∀ m ∈ modules, ∀ name, (m.offset? name).isSome → table.offset? name = none) ∧ DefinedOnce modules := by
  induction modules generalizing base table with
  | nil => simp [layoutFrom, mergeFrom, FitFrom, DefinedOnce]
  | cons m rest ih =>
    have hfits : m.table.FitsAt base ↔ _ := fitsAt_table_iff
    rw [layoutFrom, List.map_cons]
    by_cases hm : m.table.FitsAt base
    · -- the rest is merged into a table that also defines what the first module does
      have hmerged (name : SymbolName) : (table.merge (m.table.shifted base) m.name).offset? name = none ↔
          table.offset? name = none ∧ ¬(m.offset? name).isSome := by
        rw [SymbolTable.offset?_merge, Option.or_eq_none_iff, ← isSome_offset?_shifted m base,
          Option.not_isSome_iff_eq_none]
      rw [mergeFrom_of_fitsAt hm, List.append_eq_nil_iff, SymbolTable.collisions_eq_nil_iff, ih]
      simp only [isSome_offset?_shifted, hmerged]
      constructor
      · rintro ⟨hcollisions, hrestFits, hrestTable, honce⟩
        refine ⟨?_, ?_, ?_⟩
        · exact List.forall_mem_cons.mpr ⟨hfits.mp hm, hrestFits⟩
        · exact List.forall_mem_cons.mpr ⟨hcollisions, fun n hn name hname => (hrestTable n hn name hname).1⟩
        · refine List.Pairwise.cons ?_ honce
          intro n hn name hboth
          exact (hrestTable n hn name hboth.2).2 hboth.1
      · rintro ⟨hallFits, hallTable, honce⟩
        obtain ⟨hfirst, hrest⟩ := List.pairwise_cons.mp honce
        obtain ⟨hfirstTable, hrestTable⟩ := List.forall_mem_cons.mp hallTable
        refine ⟨hfirstTable, (List.forall_mem_cons.mp hallFits).2, ?_, hrest⟩
        intro n hn name hname
        exact ⟨hrestTable n hn name hname, fun hsome => hfirst n hn name ⟨hsome, hname⟩⟩
    · constructor
      · intro hnil
        rw [mergeFrom_of_not_fitsAt hm, List.append_eq_nil_iff] at hnil
        exact absurd hnil.1 (SymbolTable.relocate_of_not_fitsAt m.name hm).2
      · rintro ⟨hallFits, -⟩
        exact absurd (hfits.mpr (List.forall_mem_cons.mp hallFits).1) hm

def merged (modules : List Module) : SymbolTable :=
  (mergeFrom .empty ((layoutFrom 0 modules).map placedAt)).1

theorem binding?_merged {modules : List Module} (h : DefinitionsFit modules) (name : SymbolName) :
    (merged modules).binding? name = bindingFrom 0 name modules := by
  have hbinding := (table_mergeFrom .empty h name).1
  rwa [SymbolTable.binding?_empty, Binding.join_none_left] at hbinding

theorem definer?_merged {modules : List Module} (h : DefinitionsFit modules) (name : SymbolName) :
    (merged modules).definer? name = definer? name modules := by
  have hdefiner := (table_mergeFrom .empty h name).2
  rwa [SymbolTable.offset?_eq, SymbolTable.binding?_empty, SymbolTable.definer?_empty, Option.or_none] at hdefiner

theorem isSome_offset?_merged {modules : List Module} (h : DefinitionsFit modules) {name : SymbolName} :
    ((merged modules).offset? name).isSome ↔ Defines modules name := by
  rw [SymbolTable.offset?_eq, binding?_merged h, isSome_offset?_bindingFrom]

theorem Mergeable.offset?_merged {modules : List Module} (h : Mergeable modules) {placed : Nat × Module}
    (hplaced : placed ∈ layoutFrom 0 modules) {name : SymbolName} {offset : Int16}
    (hoffset : placed.2.offset? name = some offset) :
    ∃ place : Int16, (merged modules).offset? name = some place ∧ place.toInt = placed.1 + offset.toInt := by
  have hbinding := (bindingFrom_of_defined h.definedOnce hplaced hoffset).1
  refine ⟨Int16.ofInt (placed.1 + offset.toInt), ?_, ?_⟩
  · rw [SymbolTable.offset?_eq_some_iff, binding?_merged h.definitionsFit]
    exact hbinding
  · exact Offset.toInt_ofInt_of_fits (h.definitionsFit placed hplaced name offset hoffset)

def mergeErrors (modules : List Module) : List LinkError :=
  (mergeFrom .empty ((layoutFrom 0 modules).map placedAt)).2

theorem mergeErrors_eq_nil_iff {modules : List Module} :
    mergeErrors modules = [] ↔ DefinitionsFit modules ∧ DefinedOnce modules := by
  have hempty : ∀ m ∈ modules, ∀ name, (m.offset? name).isSome → SymbolTable.empty.offset? name = none := by
    intro m _ name _
    rw [SymbolTable.offset?_eq, SymbolTable.binding?_empty, Option.bind_none]
  rw [mergeErrors, errors_mergeFrom_eq_nil_iff, and_iff_right hempty]
  rfl

theorem mergeTables_of_fit {modules : List Module} (hfit : DefinitionsFit modules) (honce : DefinedOnce modules) :
    mergeTables ((layoutFrom 0 modules).map placedAt) = .ok (merged modules) := by
  change unlessErrors (mergeErrors modules) (merged modules) = _
  rw [mergeErrors_eq_nil_iff.mpr ⟨hfit, honce⟩]
  rfl

theorem mergeTables_of_not_fit {modules : List Module} (h : ¬(DefinitionsFit modules ∧ DefinedOnce modules)) :
    mergeTables ((layoutFrom 0 modules).map placedAt) = .error ⟨mergeErrors modules⟩ := by
  change unlessErrors (mergeErrors modules) (merged modules) = _
  cases herrors : mergeErrors modules with
  | nil => exact absurd (mergeErrors_eq_nil_iff.mp herrors) h
  | cons error errors => rfl

/-- The failure of modules that cannot be measured or cannot be merged. -/
inductive Rejected (modules : List Module) : LinkFailure → Prop
  | labels (h : ¬LabelsFit modules) : Rejected modules ⟨modules.filterMap outlierError?⟩
  | merge (hlabels : LabelsFit modules) (h : ¬(DefinitionsFit modules ∧ DefinedOnce modules)) :
    Rejected modules ⟨mergeErrors modules⟩

theorem mergeable_or_rejected (modules : List Module) :
    Mergeable modules ∨ ∃ failure, Rejected modules failure := by
  by_cases hlabels : LabelsFit modules
  · by_cases hmerge : DefinitionsFit modules ∧ DefinedOnce modules
    · exact .inl ⟨hlabels, hmerge.1, hmerge.2⟩
    · exact .inr ⟨_, .merge hlabels hmerge⟩
  · exact .inr ⟨_, .labels hlabels⟩

section Bind

variable {modules : List Module} {α : Type} (next : List PlacedModule → SymbolTable → Except LinkFailure α)

theorem Mergeable.bind (h : Mergeable modules) :
    (place modules >>= fun placed => mergeTables placed >>= next placed) =
      next ((layoutFrom 0 modules).map placedAt) (merged modules) := by
  rw [place_of_labelsFit h.labelsFit]
  change mergeTables _ >>= _ = _
  rw [mergeTables_of_fit h.definitionsFit h.definedOnce]
  rfl

theorem Rejected.bind {failure : LinkFailure} (h : Rejected modules failure) :
    (place modules >>= fun placed => mergeTables placed >>= next placed) = .error failure := by
  cases h with
  | labels h =>
    rw [place_of_not_labelsFit h]
    rfl
  | merge hlabels h =>
    rw [place_of_labelsFit hlabels]
    change mergeTables _ >>= _ = _
    rw [mergeTables_of_not_fit h]
    rfl

end Bind

theorem Rejected.not_mergeable {modules : List Module} {failure : LinkFailure} (h : Rejected modules failure) :
    ¬Mergeable modules := by
  rintro ⟨hlabels, hfit, honce⟩
  cases h with
  | labels h => exact h hlabels
  | merge _ h => exact h ⟨hfit, honce⟩

private theorem fillFrom_cons (base : Nat) (m : Module) (rest : List PlacedModule) (table : SymbolTable) :
    fillFrom table (placedAt (base, m) :: rest) =
      let first := (Filling.start base table).run m.code.items
      let (final, bytes, errors) := fillFrom first.table rest
      (final, (if first.errors = [] then first.bytes else []) ++ bytes,
        first.errors.map (CodeError.inModule m.name .substitute) ++ errors) := by
  rw [fillFrom]
  simp only [placedAt, Code.reduceAt_release]
  cases ((Filling.start base table).run m.code.items).errors with
  | nil => rfl
  | cons error errors => rfl

private theorem position_run_module (base : Nat) (m : Module) (table : SymbolTable) :
    ((Filling.start base table).run m.code.items).position = ↑(base + m.code.size) := by
  rw [Filling.position_run, Code.span_items, Int.natCast_add]
  rfl

/-- Filling in is one run of pass two over the items of all modules. -/
theorem fillFrom_eq_run (base : Nat) (modules : List Module) (table : SymbolTable) :
    (fillFrom table ((layoutFrom base modules).map placedAt)).1 =
        ((Filling.start base table).run (itemsOf modules)).table ∧
      ((fillFrom table ((layoutFrom base modules).map placedAt)).2.2 = [] ↔
        ((Filling.start base table).run (itemsOf modules)).errors = []) ∧
      (((Filling.start base table).run (itemsOf modules)).errors = [] →
        (fillFrom table ((layoutFrom base modules).map placedAt)).2.1 =
          ((Filling.start base table).run (itemsOf modules)).bytes) := by
  induction modules generalizing base table with
  | nil => simp [layoutFrom, fillFrom, itemsOf, Filling.start]
  | cons m rest ih =>
    have hitems : (Filling.start base table).run (itemsOf (m :: rest)) =
        ((Filling.start base table).run m.code.items).run (itemsOf rest) :=
      Filling.run_append _ m.code.items (itemsOf rest)
    have hposition := position_run_module base m table
    obtain ⟨htable, herrors, hbytes⟩ := ih (base + m.code.size) ((Filling.start base table).run m.code.items).table
    rw [hitems, Filling.run_eq, hposition, layoutFrom, List.map_cons, fillFrom_cons]
    generalize (Filling.start base table).run m.code.items = first at *
    refine ⟨htable, ?_, ?_⟩
    · simp only [List.append_eq_nil_iff, List.map_eq_nil_iff, herrors]
    · intro hnil
      obtain ⟨hfirst, hrest⟩ := List.append_eq_nil_iff.mp hnil
      simp only [hfirst, if_true, hbytes hrest]

/-- Where the labels are known, filling in reports each unresolved reference in its module, and nothing else. -/
theorem errors_fillFrom {base : Nat} {modules : List Module} {table : SymbolTable}
    (h : (Filling.start base table).Known (itemsOf modules)) :
    (fillFrom table ((layoutFrom base modules).map placedAt)).2.2 =
      modules.flatMap fun m => (Filling.missing table m.code.items).map fun name => .unresolved name m.name := by
  induction modules generalizing base table with
  | nil => rfl
  | cons m rest ih =>
    have hitems : itemsOf (m :: rest) = m.code.items ++ itemsOf rest := rfl
    rw [hitems] at h
    obtain ⟨hm, hrest⟩ := h.append
    obtain ⟨herrors, hkeep⟩ := hm.run
    have hknown : (Filling.start ↑(base + m.code.size) ((Filling.start base table).run m.code.items).table).Known
        (itemsOf rest) := by
      intro label hlabel
      exact hrest label (by rwa [position_run_module])
    have hmissing (n : Module) : Filling.missing ((Filling.start base table).run m.code.items).table n.code.items =
        Filling.missing table n.code.items :=
      Filling.missing_congr hkeep _
    rw [layoutFrom, List.map_cons, fillFrom_cons, List.flatMap_cons]
    simp only [ih hknown, hmissing, herrors]
    congr 1
    simp [Filling.start, CodeError.inModule, Function.comp_def]

end Link
end StackLink
