import Mathlib.Data.List.TakeWhile
import StackLink.Module
import StackLink.Proofs.Items

/-!
# What measuring finds

Pass one records the labels of code from left to right and stops at the first that is out of range. For a
module its labels come on top of its manifest, so that the last word on a name is the code's.
-/
namespace StackLink

namespace Label

/-- Records labels up to the first one out of range, which is given back. -/
def record (table : SymbolTable) : List Label → SymbolTable × Option Label
  | [] => (table, none)
  | label :: rest =>
    if label.fits then record (table.set label.name (.defined (Int16.ofInt label.position))) rest
    else (table, some label)

theorem record_append (table : SymbolTable) (first second : List Label) :
    record table (first ++ second) =
      match record table first with
      | (table, none) => record table second
      | (table, some label) => (table, some label) := by
  induction first generalizing table with
  | nil => rfl
  | cons label rest ih =>
    by_cases h : label.fits
    · simp [record, h, ih]
    · simp [record, h]

theorem record_eq (table : SymbolTable) (labels : List Label) :
    record table labels =
      (table.setAll ((labels.takeWhile fits).map symbol), labels.find? fun label => !label.fits) := by
  induction labels generalizing table with
  | nil => rfl
  | cons label rest ih =>
    by_cases h : label.fits
    · simp only [record, h, if_true, ih, List.takeWhile_cons, List.map_cons, List.find?_cons, Bool.not_true]
      rfl
    · simp only [record, h, List.takeWhile_cons, List.find?_cons]
      rfl

theorem exists_of_binding? {labels : List Label} {name : SymbolName} {binding : Binding}
    (h : Manifest.binding? (labels.map symbol) name = some binding) :
    ∃ label ∈ labels, label.name = name ∧ binding = .defined (Int16.ofInt label.position) := by
  obtain ⟨label, hlabel, hsymbol⟩ := List.mem_map.mp (Manifest.mem_of_binding? h)
  exact ⟨label, hlabel, congrArg Symbol.name hsymbol, (congrArg Symbol.binding hsymbol).symm⟩

/-- Of the labels of one name the last one counts, and none stands after it. -/
theorem exists_last {labels : List Label} (hsorted : labels.Pairwise fun s t => s.position ≤ t.position)
    {label : Label} (h : label ∈ labels) :
    ∃ last ∈ labels, last.name = label.name ∧ label.position ≤ last.position ∧
      Manifest.binding? (labels.map symbol) label.name = some (.defined (Int16.ofInt last.position)) := by
  induction labels with
  | nil => cases h
  | cons first rest ih =>
    obtain ⟨hfirst, hrest⟩ := List.pairwise_cons.mp hsorted
    rw [List.map_cons, Manifest.binding?]
    cases hbinding : Manifest.binding? (rest.map symbol) label.name with
    | some binding =>
      obtain ⟨last, hlast, hname, rfl⟩ := exists_of_binding? hbinding
      rcases List.mem_cons.mp h with rfl | h
      · exact ⟨last, List.mem_cons_of_mem _ hlast, hname, hfirst last hlast, Option.some_or⟩
      · obtain ⟨latest, hlatest, hlatestName, hle, hlatestBinding⟩ := ih hrest h
        refine ⟨latest, List.mem_cons_of_mem _ hlatest, hlatestName, hle, ?_⟩
        rw [Option.some_or, ← hbinding, hlatestBinding]
    | none =>
      have hnotin := Manifest.binding?_eq_none_iff.mp hbinding
      rcases List.mem_cons.mp h with rfl | h
      · exact ⟨label, List.mem_cons_self, rfl, Int.le_refl _, by simp [symbol]⟩
      · exact absurd (List.mem_map_of_mem (List.mem_map_of_mem h)) hnotin

theorem binding?_shift (base : Int) (labels : List Label) (name : SymbolName) :
    Manifest.binding? ((labels.map (shift base)).map symbol) name =
      (Manifest.binding? (labels.map symbol) name).map (SymbolTable.moved base) := by
  induction labels with
  | nil => rfl
  | cons label rest ih =>
    simp only [List.map_cons, Manifest.binding?, ih, Option.map_or]
    congr 1
    by_cases h : label.name = name
    · simp only [name_symbol, name_shift, h, if_true, Option.map_some]
      simp only [symbol, shift, SymbolTable.moved, Offset.ofInt_add_toInt_ofInt]
    · simp [h]

end Label

namespace Code

private def measured (size : Nat) : SymbolTable × Option Label → SymbolTable × Except CodeError Nat
  | (table, none) => (table, .ok size)
  | (table, some found) => (table, .error (.outOfRange found.name found.position))

private theorem measureAt_eq_measured (code : Code) (position : Int) (table : SymbolTable) :
    code.measureAt position table =
      measured code.size (Label.record table (Item.labelsFrom position code.items)) := by
  induction code generalizing position table with
  | bytes payload =>
    by_cases h : payload = [] <;> simp [measureAt, items, h, Item.labelsFrom, Label.record, measured, size]
  | ref name => rfl
  | label name inner ih =>
    rw [measureAt, items, Item.labelsFrom, Label.record, size]
    by_cases h : Offset.Fits position
    · rw [Offset.ofInt?_of_fits h, if_pos (Label.fits_iff.mpr h)]
      exact ih position _
    · have hbad : ¬(⟨name, position⟩ : Label).fits = true := fun hfits => h (Label.fits_iff.mp hfits)
      rw [Offset.ofInt?_of_not_fits h, if_neg hbad]
      rfl
  | seq first second ihf ihs | deferred first second ihf ihs =>
    rw [measureAt, items, Item.labelsFrom_append, span_items, Label.record_append, ihf]
    rcases Label.record table (Item.labelsFrom position first.items) with ⟨middle, _ | found⟩
    · simp only [measured, ihs]
      rcases Label.record middle (Item.labelsFrom (position + first.size) second.items) with ⟨final, _ | found⟩ <;> rfl
    · rfl

/-- Pass one, exactly: the labels before the first one out of range are recorded in their order. -/
theorem measureAt_eq (code : Code) (position : Int) (table : SymbolTable) :
    code.measureAt position table =
      (table.setAll (((Item.labelsFrom position code.items).takeWhile Label.fits).map Label.symbol),
        match (Item.labelsFrom position code.items).find? fun label => !label.fits with
        | none => .ok code.size
        | some found => .error (.outOfRange found.name found.position)) := by
  rw [measureAt_eq_measured, Label.record_eq]
  generalize (Item.labelsFrom position code.items).find? (fun label => !label.fits) = outcome
  cases outcome <;> rfl

theorem measureAt_of_fit {code : Code} {position : Int}
    (h : ∀ label ∈ Item.labelsFrom position code.items, Offset.Fits label.position) (table : SymbolTable) :
    code.measureAt position table =
      (table.setAll ((Item.labelsFrom position code.items).map Label.symbol), .ok code.size) := by
  have hall : (Item.labelsFrom position code.items).takeWhile Label.fits = Item.labelsFrom position code.items := by
    rw [List.takeWhile_eq_self_iff]
    exact fun label hlabel => Label.fits_iff.mpr (h label hlabel)
  have hnone : (Item.labelsFrom position code.items).find? (fun label => !label.fits) = none := by
    simpa using h
  rw [measureAt_eq, hall, hnone]

def outlier? (code : Code) : Option Label :=
  code.labels.find? fun label => !label.fits

theorem outlier?_eq_none_iff {code : Code} :
    code.outlier? = none ↔ ∀ label ∈ code.labels, Offset.Fits label.position := by
  simp [outlier?]

private theorem measure_zero (code : Code) (table : SymbolTable) :
    code.measure 0 table =
      (table.setAll ((code.labels.takeWhile Label.fits).map Label.symbol),
        match code.outlier? with
        | none => .ok code.size
        | some found => .error (.outOfRange found.name found.position)) :=
  measureAt_eq code 0 table

theorem measure_of_outlier?_eq_none {code : Code} (h : code.outlier? = none) :
    code.measure 0 .empty = (.ofSymbols (code.labels.map Label.symbol), .ok code.size) :=
  measureAt_of_fit (outlier?_eq_none_iff.mp h) .empty

theorem measure_of_outlier?_eq_some {code : Code} {found : Label} (h : code.outlier? = some found) :
    ∃ table, code.measure 0 .empty = (table, .error (.outOfRange found.name found.position)) := by
  rw [measure_zero, h]
  exact ⟨_, rfl⟩

end Code

@[simp] theorem SymbolTable.map_name_listing (table : SymbolTable) (names : List SymbolName) :
    (table.listing names).map Symbol.name = names := by
  simp [listing, Function.comp_def]

theorem SymbolTable.binding?_listing (table : SymbolTable) (names : List SymbolName) (name : SymbolName) :
    Manifest.binding? (table.listing names) name =
      if name ∈ names then some (.ofOffset? (table.offset? name)) else none := by
  induction names with
  | nil => rfl
  | cons first rest ih =>
    change (Manifest.binding? (table.listing rest) name).or _ = _
    rw [ih]
    by_cases hrest : name ∈ rest
    · simp [hrest]
    · by_cases hfirst : first = name
      · simp [hrest, hfirst]
      · simp [hrest, hfirst, Ne.symm hfirst]

namespace Module

/-- All that a module says of names, the manifest first. The last word on a name counts. -/
def symbols (m : Module) : List Symbol :=
  m.manifest ++ m.code.labels.map Label.symbol

def binding? (m : Module) (name : SymbolName) : Option Binding :=
  Manifest.binding? m.symbols name

def offset? (m : Module) (name : SymbolName) : Option Int16 :=
  (m.binding? name).bind Binding.offset?

def table (m : Module) : SymbolTable :=
  .ofSymbols m.symbols

@[simp] theorem binding?_table (m : Module) (name : SymbolName) : m.table.binding? name = m.binding? name :=
  SymbolTable.binding?_ofSymbols m.symbols name

@[simp] theorem offset?_table (m : Module) (name : SymbolName) : m.table.offset? name = m.offset? name := by
  rw [SymbolTable.offset?_eq, binding?_table, offset?]

@[simp] theorem definer?_table (m : Module) (name : SymbolName) : m.table.definer? name = none :=
  SymbolTable.definer?_ofSymbols m.symbols name

theorem binding?_eq (m : Module) (name : SymbolName) :
    m.binding? name =
      (Manifest.binding? (m.code.labels.map Label.symbol) name).or (m.manifest.binding? name) :=
  Manifest.binding?_append _ _ _

theorem offset?_eq_some_iff {m : Module} {name : SymbolName} {offset : Int16} :
    m.offset? name = some offset ↔ m.binding? name = some (.defined offset) := by
  rw [← offset?_table, SymbolTable.offset?_eq_some_iff, binding?_table]

/-- A label makes its module define the name, at the label or further on. -/
theorem offset?_of_mem_labels {m : Module} {label : Label} (h : label ∈ m.code.labels) :
    ∃ last ∈ m.code.labels, last.name = label.name ∧ label.position ≤ last.position ∧
      m.offset? label.name = some (Int16.ofInt last.position) := by
  obtain ⟨last, hlast, hname, hle, hbinding⟩ := Label.exists_last (Item.pairwise_labelsFrom 0 m.code.items) h
  refine ⟨last, hlast, hname, hle, ?_⟩
  rw [offset?_eq_some_iff, binding?_eq]
  change (Manifest.binding? ((Item.labelsFrom 0 m.code.items).map Label.symbol) label.name).or _ = _
  rw [hbinding]
  rfl

theorem offset?_of_nodup {m : Module} (hunique : (m.code.labels.map Label.name).Nodup) {label : Label}
    (h : label ∈ m.code.labels) : m.offset? label.name = some (Int16.ofInt label.position) := by
  obtain ⟨last, hlast, hname, -, hoffset⟩ := offset?_of_mem_labels h
  rw [List.inj_on_of_nodup_map hunique hlast h hname] at hoffset
  exact hoffset

theorem binding?_of_not_mem_labels {m : Module} {name : SymbolName} (h : name ∉ m.code.labels.map Label.name) :
    m.binding? name = m.manifest.binding? name := by
  have hnone : Manifest.binding? (m.code.labels.map Label.symbol) name = none := by
    rw [Manifest.binding?_eq_none_iff, List.map_map]
    exact h
  rw [binding?_eq, hnone, Option.none_or]

theorem ofCode_eq (name : ModuleName) (code : Code) :
    ofCode name code =
      match code.outlier? with
      | none => .ok ⟨name, (SymbolTable.ofSymbols (code.labels.map Label.symbol)).listing code.symbolNames, code⟩
      | some found => .error (.outOfRange found.name found.position) := by
  rw [ofCode]
  cases h : code.outlier? with
  | none => rw [Code.measure_of_outlier?_eq_none h]
  | some found =>
    obtain ⟨table, hmeasure⟩ := Code.measure_of_outlier?_eq_some h
    rw [hmeasure]

theorem ofCode_eq_ok_iff {name : ModuleName} {code : Code} {m : Module} :
    ofCode name code = .ok m ↔
      code.outlier? = none ∧
        m = ⟨name, (SymbolTable.ofSymbols (code.labels.map Label.symbol)).listing code.symbolNames, code⟩ := by
  rw [ofCode_eq]
  cases code.outlier? with
  | none => simp [eq_comm]
  | some found => simp

theorem code_of_ofCode {name : ModuleName} {code : Code} {m : Module} (h : ofCode name code = .ok m) :
    m.code = code := by
  rw [ofCode_eq] at h
  split at h
  · cases h
    rfl
  · cases h

/-- A module made of code defines the labels of the code and nothing else. -/
theorem mem_labels_of_ofCode {name : ModuleName} {code : Code} {m : Module} (h : ofCode name code = .ok m)
    {symbol : SymbolName} (hdefined : (m.offset? symbol).isSome) : symbol ∈ m.code.labels.map Label.name := by
  rw [ofCode_eq] at h
  split at h
  · cases h
    rw [offset?, binding?_eq, SymbolTable.binding?_listing, SymbolTable.offset?_eq,
      SymbolTable.binding?_ofSymbols] at hdefined
    cases hbinding : Manifest.binding? (code.labels.map Label.symbol) symbol with
    | none =>
      rw [hbinding, Option.none_or] at hdefined
      split at hdefined <;> cases hdefined
    | some binding =>
      obtain ⟨label, hlabel, hname, -⟩ := Label.exists_of_binding? hbinding
      exact List.mem_map.mpr ⟨label, hlabel, hname⟩
  · cases h

theorem measure_eq (m : Module) :
    m.measure =
      match m.code.outlier? with
      | none => .ok (m.table, m.code.size)
      | some label => .error (.outOfRange label.name m.name label.position .measure) := by
  rw [measure, measureCode]
  cases h : m.code.outlier? with
  | none =>
    rw [Code.measure_of_outlier?_eq_none h]
    simp only [Except.ok.injEq, Prod.mk.injEq, and_true]
    apply SymbolTable.ext_binding?
    · intro name
      rw [SymbolTable.binding?_setAll, SymbolTable.binding?_symbols, SymbolTable.binding?_ofSymbols,
        SymbolTable.binding?_ofSymbols, binding?_table, binding?_eq]
    · intro name
      rw [SymbolTable.definer?_setAll, SymbolTable.definer?_ofSymbols, definer?_table]
  | some label =>
    obtain ⟨table, hmeasure⟩ := Code.measure_of_outlier?_eq_some h
    rw [hmeasure]
    rfl

end Module
end StackLink
