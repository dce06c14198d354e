import Mathlib.Data.List.Induction
import StackLink.Proofs.Filling
import StackLink.Proofs.Findings
import StackLink.Proofs.Measure

/-!
# What pass two reports and records, exactly

Of deferred code pass two sees the size and nothing else. Outside it, each label is recorded if it is in range and
reported if not, and each reference is reported unless the table or a label before it gives its name an offset.
-/
namespace StackLink

namespace Code

/-- The code with as many zero bytes in place of each deferred sequence. -/
def hollow : Code → Code
  | bytes payload => .bytes payload
  | ref name => .ref name
  | label name inner => .label name inner.hollow
  | seq first second => .seq first.hollow second.hollow
  | deferred first second => .bytes (List.replicate (first.size + second.size) 0)

theorem release_hollow (code : Code) : code.hollow.release = code.hollow := by
  induction code with
  | bytes payload => rfl
  | ref name => rfl
  | label name inner ih => rw [hollow, release, ih]
  | seq first second ihf ihs => rw [hollow, release, ihf, ihs]
  | deferred first second _ _ => rfl

theorem substituteAt_hollow (code : Code) (position : Int) (table : SymbolTable) :
    (code.hollow.substituteAt position table).table = (code.substituteAt position table).table ∧
      (code.hollow.substituteAt position table).errors = (code.substituteAt position table).errors ∧
      (code.hollow.substituteAt position table).size = (code.substituteAt position table).size := by
  induction code generalizing position table with
  | bytes payload => exact ⟨rfl, rfl, rfl⟩
  | ref name => exact ⟨rfl, rfl, rfl⟩
  | label name inner ih =>
    rw [hollow, substituteAt, substituteAt]
    cases Offset.ofInt? position with
    | none =>
      obtain ⟨htable, herrors, hsize⟩ := ih position table
      exact ⟨htable, congrArg (CodeError.outOfRange name position :: ·) herrors, hsize⟩
    | some offset => exact ih position _
  | seq first second ihf ihs =>
    obtain ⟨htable, herrors, hsize⟩ := ihf position table
    rw [hollow, substituteAt, substituteAt]
    simp only [htable, herrors, hsize]
    obtain ⟨htable', herrors', hsize'⟩ :=
      ihs (position + (first.substituteAt position table).size) (first.substituteAt position table).table
    exact ⟨htable', by rw [herrors'], by rw [hsize']⟩
  | deferred first second _ _ => exact ⟨rfl, rfl, List.length_replicate⟩

/-- Pass two over code records and reports what a run over its items outside deferred code does. -/
theorem substituteAt_eq_run (code : Code) (position : Int) (table : SymbolTable) :
    (code.substituteAt position table).table = ((Filling.start position table).run code.hollow.items).table ∧
      (code.substituteAt position table).errors = ((Filling.start position table).run code.hollow.items).errors := by
  obtain ⟨payload, -, -, hrun⟩ := code.hollow.substituteAt_release (Filling.start position table)
  obtain ⟨htable, herrors, -⟩ := code.substituteAt_hollow position table
  rw [release_hollow] at hrun
  rw [hrun]
  exact ⟨htable.symm, herrors.symm⟩

theorem fst_reduceAt (code : Code) (table : SymbolTable) (position : Int) :
    (code.reduceAt table position).1 = (code.substituteAt position table).table := by
  rw [reduceAt]
  split <;> rfl

theorem snd_reduceAt_eq_ok_iff {code : Code} {table : SymbolTable} {position : Int} {r : Reduced} :
    (code.reduceAt table position).2 = .ok r ↔
      (code.substituteAt position table).errors = [] ∧
        r = ⟨(code.substituteAt position table).code, (code.substituteAt position table).size⟩ := by
  rw [reduceAt]
  cases (code.substituteAt position table).errors with
  | nil => simp [eq_comm]
  | cons error rest => simp

theorem snd_reduceAt_eq_error_iff {code : Code} {table : SymbolTable} {position : Int} {errors : List CodeError} :
    (code.reduceAt table position).2 = .error errors ↔
      (code.substituteAt position table).errors = errors ∧ errors ≠ [] := by
  rw [reduceAt]
  cases (code.substituteAt position table).errors with
  | nil =>
    refine iff_of_false (fun h => by cases h) ?_
    rintro ⟨rfl, hne⟩
    exact hne rfl
  | cons error rest =>
    refine ⟨?_, fun h => congrArg _ h.1⟩
    rintro ⟨⟩
    exact ⟨rfl, List.cons_ne_nil _ _⟩

end Code

namespace Item

/-- The name has an offset in the table or from a label in range among the items. -/
def Resolves (position : Int) (table : SymbolTable) (before : List Item) (name : SymbolName) : Prop :=
  (table.offset? name).isSome ∨ ∃ label ∈ labelsFrom position before, label.name = name ∧ Offset.Fits label.position

instance (position : Int) (table : SymbolTable) (before : List Item) (name : SymbolName) :
    Decidable (Resolves position table before name) :=
  inferInstanceAs (Decidable (_ ∨ _))

/-- What is wrong with an item that has the others before it, of which the first is at `position`. -/
def fault? (position : Int) (table : SymbolTable) (before : List Item) : Item → Option CodeError
  | bytes _ => none
  | ref name => if Resolves position table before name then none else some (.unresolved name)
  | label name =>
    if Offset.Fits (position + span before) then none else some (.outOfRange name (position + span before))

def faults (position : Int) (table : SymbolTable) (items : List Item) : List CodeError :=
  findings (fault? position table) items

-- a label counts for the references after it only
example : faults 0 .empty [.ref "x", .label "x", .ref "x"] = [.unresolved "x"] := by decide

variable {position : Int} {table : SymbolTable}

theorem faults_ne_nil_iff {items : List Item} :
    faults position table items ≠ [] ↔
      (∃ before name after, items = before ++ .label name :: after ∧ ¬Offset.Fits (position + span before)) ∨
        ∃ before name after, items = before ++ .ref name :: after ∧ ¬Resolves position table before name := by
  rw [faults, findings_ne_nil_iff]
  constructor
  · rintro ⟨before, item, after, rfl, hfault⟩
    cases item with
    | bytes payload => cases hfault
    | ref name =>
      refine .inr ⟨before, name, after, rfl, fun hresolves => ?_⟩
      rw [fault?, if_pos hresolves] at hfault
      cases hfault
    | label name =>
      refine .inl ⟨before, name, after, rfl, fun hfits => ?_⟩
      rw [fault?, if_pos hfits] at hfault
      cases hfault
  · rintro (⟨before, name, after, rfl, hbad⟩ | ⟨before, name, after, rfl, hbad⟩)
    · exact ⟨before, .label name, after, rfl, by rw [fault?, if_neg hbad, Option.isSome_some]⟩
    · exact ⟨before, .ref name, after, rfl, by rw [fault?, if_neg hbad, Option.isSome_some]⟩

theorem not_resolves_iff {before : List Item} {name : SymbolName} :
    ¬Resolves position table before name ↔ table.offset? name = none ∧
      ∀ label ∈ labelsFrom position before, label.name = name → ¬Offset.Fits label.position := by
  simp [Resolves]

end Item

/-- Recorded labels define their names, besides those that were defined before. -/
theorem SymbolTable.isSome_offset?_setAll {table : SymbolTable} {labels : List Label} {name : SymbolName} :
    ((table.setAll ((labels.filter Label.fits).map Label.symbol)).offset? name).isSome ↔
      (table.offset? name).isSome ∨ ∃ label ∈ labels, label.name = name ∧ Offset.Fits label.position := by
  rw [offset?_eq, binding?_setAll, offset?_eq]
  cases hbinding : Manifest.binding? ((labels.filter Label.fits).map Label.symbol) name with
  | some binding =>
    obtain ⟨label, hlabel, hname, rfl⟩ := Label.exists_of_binding? hbinding
    obtain ⟨hmem, hfits⟩ := List.mem_filter.mp hlabel
    exact iff_of_true rfl (.inr ⟨label, hmem, hname, Label.fits_iff.mp hfits⟩)
  | none =>
    rw [Option.none_or]
    refine ⟨.inl, ?_⟩
    rintro (hsome | ⟨label, hlabel, rfl, hfits⟩)
    · exact hsome
    · refine absurd ?_ (Manifest.binding?_eq_none_iff.mp hbinding)
      have hmem : label ∈ labels.filter Label.fits := List.mem_filter.mpr ⟨hlabel, Label.fits_iff.mpr hfits⟩
      exact List.mem_map.mpr ⟨label.symbol, List.mem_map_of_mem hmem, rfl⟩

namespace Filling

theorem errors_step {state : Filling} {item : Item} {position : Int} {table : SymbolTable} {before : List Item}
    (hposition : state.position = position + Item.span before)
    (htable : ∀ name, (state.table.offset? name).isSome ↔ Item.Resolves position table before name) :
    (state.step item).errors = state.errors ++ (item.fault? position table before).toList := by
  cases item with
  | bytes payload => simp [step, Item.fault?]
  | ref name =>
    rw [Item.fault?, step]
    by_cases hresolves : Item.Resolves position table before name
    · obtain ⟨offset, hoffset⟩ := Option.isSome_iff_exists.mp ((htable name).mpr hresolves)
      simp [hoffset, hresolves]
    · have hnone : state.table.offset? name = none := by
        rw [← Option.not_isSome_iff_eq_none, htable]
        exact hresolves
      simp [hnone, hresolves]
  | label name =>
    rw [Item.fault?, step, hposition]
    by_cases hfits : Offset.Fits (position + Item.span before)
    · simp [Offset.ofInt?_of_fits hfits, hfits]
    · simp [Offset.ofInt?_of_not_fits hfits, hfits]

theorem errors_run (position : Int) (table : SymbolTable) (items : List Item) :
    ((start position table).run items).errors = Item.faults position table items := by
  induction items using List.reverseRecOn with
  | nil => rfl
  | append_singleton items item ih =>
    rw [run_append, run_cons, run_nil, Item.faults, findings_concat, ← Item.faults, ← ih]
    apply errors_step
    · exact position_run _ _
    · intro name
      rw [table_run]
      exact SymbolTable.isSome_offset?_setAll

end Filling

namespace Code

/-- Pass two fails if and only if some label outside deferred code is out of range or some reference there has no
offset when it is reached, and it reports just these in their order. In either case it has recorded the labels
in range outside deferred code. What is deferred has no part in this. -/
theorem reduce_exact (code : Code) (table : SymbolTable) (base : Int16) :
    (code.reduce table base).1 =
      table.setAll (((Item.labelsFrom base.toInt code.hollow.items).filter Label.fits).map Label.symbol) ∧
    ((∃ errors, (code.reduce table base).2 = .error errors) ↔
      (∃ before name after, code.hollow.items = before ++ .label name :: after ∧
        ¬Offset.Fits (base.toInt + Item.span before)) ∨
      ∃ before name after, code.hollow.items = before ++ .ref name :: after ∧ table.offset? name = none ∧
        ∀ label ∈ Item.labelsFrom base.toInt before, label.name = name → ¬Offset.Fits label.position) ∧
    (∀ errors, (code.reduce table base).2 = .error errors →
      errors = Item.faults base.toInt table code.hollow.items) ∧
    ∀ other : Code, other.hollow = code.hollow →
      (other.reduce table base).1 = (code.reduce table base).1 ∧
      ∀ errors, (other.reduce table base).2 = .error errors ↔ (code.reduce table base).2 = .error errors := by
  obtain ⟨htable, herrors⟩ := code.substituteAt_eq_run base.toInt table
  rw [Filling.table_run] at htable
  rw [Filling.errors_run] at herrors
  refine ⟨?_, ?_, ?_, ?_⟩
  · rw [reduce, fst_reduceAt]
    exact htable
  · have hfails : (∃ errors, (code.reduce table base).2 = .error errors) ↔
        Item.faults base.toInt table code.hollow.items ≠ [] := by
      simp only [reduce, snd_reduceAt_eq_error_iff, herrors]
      exact ⟨fun ⟨errors, heq, hne⟩ => heq ▸ hne, fun hne => ⟨_, rfl, hne⟩⟩
    rw [hfails, Item.faults_ne_nil_iff]
    simp only [Item.not_resolves_iff]
  · intro errors h
    rw [← herrors]
    exact (snd_reduceAt_eq_error_iff.mp h).1.symm
  · intro other hsame
    obtain ⟨htable', herrors', -⟩ := other.substituteAt_hollow base.toInt table
    obtain ⟨htable, herrors, -⟩ := code.substituteAt_hollow base.toInt table
    rw [hsame] at htable' herrors'
    refine ⟨?_, ?_⟩
    · rw [reduce, reduce, fst_reduceAt, fst_reduceAt, ← htable', htable]
    · intro errors
      rw [reduce, reduce, snd_reduceAt_eq_error_iff, snd_reduceAt_eq_error_iff, ← herrors', herrors]

end Code
end StackLink
