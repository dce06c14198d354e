import StackLink.Proofs.Measure
import StackLink.Proofs.Merge

/-!
# Measuring at a base and moving a table

Code measured at a base has the table of the code measured at zero, moved by the base. Moving looks only at the last
label of each name and measuring at all of them, but no label stands after the last one, and none before zero.
A table that is moved on twice is one that is moved on by the sum.
-/
namespace StackLink

namespace SymbolTable

theorem relocate_eq_ok_iff {table result : SymbolTable} {base : Int} {owner : ModuleName} :
    table.relocate base owner = .ok result ↔ table.FitsAt base ∧ result = table.shifted base := by
  by_cases h : table.FitsAt base
  · simp [relocate_of_fitsAt owner h, h, eq_comm]
  · simp [(relocate_of_not_fitsAt owner h).1, h]

theorem shifted_shifted (table : SymbolTable) (first second : Int) :
    (table.shifted first).shifted second = table.shifted (first + second) := by
  apply ext_binding?
  · intro name
    simp [Function.comp_def, moved_moved, Int.add_comm]
  · intro name
    simp

/-- What fits further on fits on the way there, since no offset is below the range. -/
theorem FitsAt.of_add {table : SymbolTable} {first second : Int} (hfirst : 0 ≤ first) (hsecond : 0 ≤ second)
    (h : table.FitsAt (first + second)) : table.FitsAt first := by
  intro name offset hoffset
  have hlow := (Offset.fits_toInt offset).1
  have hhigh := (h name offset hoffset).2
  constructor <;> omega

theorem fitsAt_shifted_iff {table : SymbolTable} {first second : Int} (h : table.FitsAt first) :
    (table.shifted first).FitsAt second ↔ table.FitsAt (first + second) := by
  have hmoved (name : SymbolName) (offset : Int16) (hoffset : table.offset? name = some offset) :
      second + (Int16.ofInt (first + offset.toInt)).toInt = first + second + offset.toInt := by
    rw [Offset.toInt_ofInt_of_fits (h name offset hoffset)]
    omega
  constructor
  · intro hshifted name offset hoffset
    rw [← hmoved name offset hoffset]
    apply hshifted name
    rw [offset?_shifted, hoffset, Option.map_some]
  · intro hsum name offset hoffset
    rw [offset?_shifted, Option.map_eq_some_iff] at hoffset
    obtain ⟨own, hown, rfl⟩ := hoffset
    rw [hmoved name own hown]
    exact hsum name own hown

theorem relocate_add_eq_ok_iff {table final : SymbolTable} {first second : Int} (hfirst : 0 ≤ first)
    (hsecond : 0 ≤ second) (whole front rest : ModuleName) :
    table.relocate (first + second) whole = .ok final ↔
      ∃ middle, table.relocate first front = .ok middle ∧ middle.relocate second rest = .ok final := by
  simp only [relocate_eq_ok_iff]
  constructor
  · intro h
    have hfits := h.1.of_add hfirst hsecond
    refine ⟨_, ⟨hfits, rfl⟩, (fitsAt_shifted_iff hfits).mpr h.1, ?_⟩
    rw [h.2, shifted_shifted]
  · intro h
    obtain ⟨middle, ⟨hfits, rfl⟩, hmoved, rfl⟩ := h
    exact ⟨(fitsAt_shifted_iff hfits).mp hmoved, shifted_shifted table first second⟩

theorem ofSymbols_shift (base : Int) (labels : List Label) :
    ofSymbols ((labels.map (Label.shift base)).map Label.symbol) =
      (ofSymbols (labels.map Label.symbol)).shifted base := by
  apply ext_binding?
  · intro name
    rw [binding?_shifted, binding?_ofSymbols, binding?_ofSymbols, Label.binding?_shift]
  · intro name
    rw [definer?_shifted, definer?_ofSymbols, definer?_ofSymbols]

end SymbolTable

namespace Code

theorem measureAt_eq_ok_iff {code : Code} {position : Int} {table result : SymbolTable} {size : Nat} :
    code.measureAt position table = (result, .ok size) ↔
      (∀ label ∈ Item.labelsFrom position code.items, Offset.Fits label.position) ∧
        result = table.setAll ((Item.labelsFrom position code.items).map Label.symbol) ∧ size = code.size := by
  constructor
  · intro h
    have hall : ∀ label ∈ Item.labelsFrom position code.items, Offset.Fits label.position := by
      rw [measureAt_eq] at h
      cases hfind : (Item.labelsFrom position code.items).find? (fun label => !label.fits) with
      | none => simpa using hfind
      | some found => simp [hfind] at h
    rw [measureAt_of_fit hall, Prod.mk.injEq, Except.ok.injEq] at h
    exact ⟨hall, h.1.symm, h.2.symm⟩
  · intro h
    rw [measureAt_of_fit h.1, h.2.1, h.2.2]

theorem nonneg_of_mem_labels {code : Code} {label : Label} (h : label ∈ code.labels) : 0 ≤ label.position :=
  (Item.position_of_mem_labelsFrom h).1

/-- The labels of code fit behind a base if they fit at the start and the table of the last ones can be moved. -/
theorem fits_shift_iff {code : Code} {base : Int} (hbase : 0 ≤ base) :
    (∀ label ∈ code.labels, Offset.Fits (base + label.position)) ↔
      (∀ label ∈ code.labels, Offset.Fits label.position) ∧
        (SymbolTable.ofSymbols (code.labels.map Label.symbol)).FitsAt base := by
  constructor
  · intro h
    have hown : ∀ label ∈ code.labels, Offset.Fits label.position := by
      intro label hlabel
      have hlow := nonneg_of_mem_labels hlabel
      have hhigh := (h label hlabel).2
      constructor <;> omega
    refine ⟨hown, ?_⟩
    intro name offset hoffset
    rw [SymbolTable.offset?_eq_some_iff, SymbolTable.binding?_ofSymbols] at hoffset
    obtain ⟨label, hlabel, -, hdefined⟩ := Label.exists_of_binding? hoffset
    cases hdefined
    rw [Offset.toInt_ofInt_of_fits (hown label hlabel)]
    exact h label hlabel
  · intro h label hlabel
    -- the last label of the name stands furthest from the start, and it can be moved
    obtain ⟨last, hlast, -, hle, hbinding⟩ := Label.exists_last (Item.pairwise_labelsFrom 0 code.items) hlabel
    have hmoved : Offset.Fits (base + (Int16.ofInt last.position).toInt) := by
      apply h.2 label.name
      rw [SymbolTable.offset?_eq_some_iff, SymbolTable.binding?_ofSymbols]
      exact hbinding
    rw [Offset.toInt_ofInt_of_fits (h.1 last hlast)] at hmoved
    have hlow := nonneg_of_mem_labels hlabel
    have hhigh := hmoved.2
    constructor <;> omega

theorem measure_eq_ok_iff {code : Code} {base : Int16} (hbase : 0 ≤ base.toInt) {table : SymbolTable} {size : Nat} :
    code.measure base .empty = (table, .ok size) ↔
      ((∀ label ∈ code.labels, Offset.Fits label.position) ∧
        (SymbolTable.ofSymbols (code.labels.map Label.symbol)).FitsAt base.toInt) ∧
        table = (SymbolTable.ofSymbols (code.labels.map Label.symbol)).shifted base.toInt ∧ size = code.size := by
  have hlabels : Item.labelsFrom base.toInt code.items = code.labels.map (Label.shift base.toInt) :=
    Item.labelsFrom_eq base.toInt code.items
  have htable := SymbolTable.ofSymbols_shift base.toInt code.labels
  rw [SymbolTable.ofSymbols] at htable
  rw [measure, measureAt_eq_ok_iff, hlabels, htable, List.forall_mem_map, ← fits_shift_iff hbase]
  rfl

/-- Measuring code at a base that is not negative succeeds just if measuring it at zero does and the table can be
moved to the base, and gives the same size and the moved table. A table can be moved by a sum just if it can be moved
by one part and then by the other, with the same result. -/
theorem measure_relocate :
    (∀ (code : Code) (base : Int16) (owner : ModuleName) (table : SymbolTable) (size : Nat), 0 ≤ base.toInt →
      (code.measure base .empty = (table, .ok size) ↔
        ∃ own, code.measure 0 .empty = (own, .ok size) ∧ own.relocate base.toInt owner = .ok table)) ∧
    ∀ (table final : SymbolTable) (first second : Int) (whole front rest : ModuleName), 0 ≤ first → 0 ≤ second →
      (table.relocate (first + second) whole = .ok final ↔
        ∃ middle, table.relocate first front = .ok middle ∧ middle.relocate second rest = .ok final) := by
  constructor
  · intro code base owner table size hbase
    have hzero (own : SymbolTable) : code.measure 0 .empty = (own, .ok size) ↔
        (∀ label ∈ code.labels, Offset.Fits label.position) ∧
          own = SymbolTable.ofSymbols (code.labels.map Label.symbol) ∧ size = code.size :=
      measureAt_eq_ok_iff
    simp only [measure_eq_ok_iff hbase, hzero, SymbolTable.relocate_eq_ok_iff]
    constructor
    · intro h
      exact ⟨_, ⟨h.1.1, rfl, h.2.2⟩, h.1.2, h.2.1⟩
    · intro h
      obtain ⟨own, ⟨hfits, rfl, hsize⟩, hmoves, htable⟩ := h
      exact ⟨⟨hfits, hmoves⟩, htable, hsize⟩
  · intro table final first second whole front rest hfirst hsecond
    exact SymbolTable.relocate_add_eq_ok_iff hfirst hsecond whole front rest

/-- A name that is bound twice reaches the end of the range with its second label, and one byte further on it is out
of range. The other table has a definition before its start. -/
theorem measure_relocate_boundary :
    let code : Code := .seq (.mark "x") (.deferred (.ref "y") (.mark "x"))
    let table : SymbolTable := .ofSymbols [⟨"k", .defined (-3)⟩, ⟨"u", .undefined⟩]
    (∃ own, code.measure 0 .empty = (own, .ok 2) ∧
      own.relocate 32765 "m" = .ok (.ofSymbols [⟨"x", .defined 32767⟩])) ∧
    (¬∃ own, code.measure 0 .empty = (own, .ok 2) ∧ ∃ moved, own.relocate 32766 "m" = .ok moved) ∧
    ∃ middle, table.relocate 32760 "m" = .ok middle ∧
      middle.relocate 10 "n" = .ok (.ofSymbols [⟨"k", .defined 32767⟩, ⟨"u", .undefined⟩]) := by
  intro code table
  have hmeasure : code.measure 32765 .empty = (.ofSymbols [⟨"x", .defined 32767⟩], .ok 2) := by decide +kernel
  have hfails : (code.measure 32766 .empty).2 = .error (.outOfRange "x" 32768) := by decide +kernel
  have hmove : table.relocate (32760 + 10) "m" = .ok (.ofSymbols [⟨"k", .defined 32767⟩, ⟨"u", .undefined⟩]) := by
    decide +kernel
  refine ⟨(measure_relocate.1 code 32765 "m" _ 2 (by decide)).mp hmeasure, ?_,
    (measure_relocate.2 table _ 32760 10 "m" "m" "n" (by decide) (by decide)).mp hmove⟩
  intro h
  obtain ⟨own, hown, moved, hmoved⟩ := h
  have hfurther := (measure_relocate.1 code 32766 "m" moved 2 (by decide)).mpr ⟨own, hown, hmoved⟩
  rw [hfurther] at hfails
  cases hfails

end Code
end StackLink
