import StackLink.Code.Reduce
import StackLink.Proofs.Items

/-!
# What pass two does, item by item

Once deferred code is released, pass two is a run of single steps over the items of the code. What a step
keeps, a run keeps: the definers, which names are defined, and, where each label is already recorded at its
own position, the whole table.
-/
namespace StackLink

/-- Pass two between two items: where it stands, what it has recorded, put out and found wrong. -/
structure Filling where
  position : Int
  table : SymbolTable
  bytes : Bytes
  errors : List CodeError

namespace Filling

def start (position : Int) (table : SymbolTable) : Filling :=
  ⟨position, table, [], []⟩

def step (state : Filling) : Item → Filling
  | .bytes payload =>
    { state with
      position := state.position + payload.length
      bytes := state.bytes ++ payload }
  | .ref name =>
    match state.table.offset? name with
    | some offset =>
      { state with
        position := state.position + Code.refSize
        bytes := state.bytes ++ Bytes.ofOffset offset }
    | none =>
      { state with
        position := state.position + Code.refSize
        bytes := state.bytes ++ List.replicate Code.refSize 0
        errors := state.errors ++ [.unresolved name] }
  | .label name =>
    match Offset.ofInt? state.position with
    | some offset => { state with table := state.table.set name (.defined offset) }
    | none => { state with errors := state.errors ++ [.outOfRange name state.position] }

def run (state : Filling) (items : List Item) : Filling :=
  items.foldl step state

@[simp] theorem run_nil (state : Filling) : run state [] = state := rfl

@[simp] theorem run_cons (state : Filling) (item : Item) (items : List Item) :
    run state (item :: items) = run (step state item) items := rfl

theorem run_append (state : Filling) (first second : List Item) :
    run state (first ++ second) = run (run state first) second :=
  List.foldl_append

private theorem step_eq (state : Filling) (item : Item) :
    step state item =
      ⟨(step (start state.position state.table) item).position, (step (start state.position state.table) item).table,
        state.bytes ++ (step (start state.position state.table) item).bytes,
        state.errors ++ (step (start state.position state.table) item).errors⟩ := by
  cases item with
  | bytes payload => simp [step, start]
  | ref name =>
    simp only [step, start]
    cases state.table.offset? name <;> simp
  | label name =>
    simp only [step, start]
    cases Offset.ofInt? state.position <;> simp

theorem run_eq (state : Filling) (items : List Item) :
    run state items =
      ⟨(run (start state.position state.table) items).position, (run (start state.position state.table) items).table,
        state.bytes ++ (run (start state.position state.table) items).bytes,
        state.errors ++ (run (start state.position state.table) items).errors⟩ := by
  induction items generalizing state with
  | nil => simp [start]
  | cons item rest ih =>
    rw [run_cons, run_cons, ih, ih (step (start state.position state.table) item), step_eq state item]
    simp

theorem bytes_prefix_run (state : Filling) (items : List Item) : state.bytes <+: (run state items).bytes := by
  rw [run_eq]
  exact List.prefix_append _ _

end Filling

namespace Code

/-- Released code comes down to bytes, and pass two over it is a run over its items. -/
theorem substituteAt_release (code : Code) (state : Filling) :
    ∃ payload : Bytes,
      (code.release.substituteAt state.position state.table).code = .bytes payload ∧
      (code.release.substituteAt state.position state.table).size = code.size ∧
      Filling.run state code.items =
        ⟨state.position + code.size, (code.release.substituteAt state.position state.table).table,
          state.bytes ++ payload, state.errors ++ (code.release.substituteAt state.position state.table).errors⟩ := by
  induction code generalizing state with
  | bytes payload =>
    refine ⟨payload, rfl, rfl, ?_⟩
    by_cases h : payload = [] <;> simp [items, h, release, substituteAt, Filling.step, size]
  | ref name =>
    rw [release, substituteAt, items, Filling.run_cons, Filling.run_nil, Filling.step]
    cases state.table.offset? name with
    | none => exact ⟨_, rfl, rfl, rfl⟩
    | some offset => exact ⟨_, rfl, rfl, by simp [size]⟩
  | label name inner ih =>
    rw [release, substituteAt, items, Filling.run_cons, Filling.step, size]
    cases Offset.ofInt? state.position with
    | none =>
      obtain ⟨payload, hcode, hsize, hrun⟩ :=
        ih { state with errors := state.errors ++ [.outOfRange name state.position] }
      refine ⟨payload, hcode, hsize, ?_⟩
      rw [hrun]
      simp
    | some offset => exact ih { state with table := state.table.set name (.defined offset) }
  | seq first second ihf ihs | deferred first second ihf ihs =>
    obtain ⟨head, hheadCode, hheadSize, hhead⟩ := ihf state
    obtain ⟨tail, htailCode, htailSize, htail⟩ := ihs (Filling.run state first.items)
    rw [release, substituteAt, items, Filling.run_append, htail, size]
    rw [hhead] at htailCode htailSize ⊢
    refine ⟨head ++ tail, ?_, ?_, ?_⟩
    · simp only [hheadCode, hheadSize, htailCode, join]
    · simp only [hheadSize, htailSize]
    · simp [hheadSize, Int.add_assoc]

theorem reduceAt_release (code : Code) (table : SymbolTable) (position : Int) :
    code.release.reduceAt table position =
      (((Filling.start position table).run code.items).table,
        match ((Filling.start position table).run code.items).errors with
        | [] => .ok ⟨.bytes ((Filling.start position table).run code.items).bytes, code.size⟩
        | errors => .error errors) := by
  obtain ⟨payload, hcode, hsize, hrun⟩ := code.substituteAt_release (Filling.start position table)
  rw [hrun, reduceAt]
  simp only [Filling.start, List.nil_append] at hcode hsize ⊢
  cases (code.release.substituteAt position table).errors with
  | nil => simp only [hcode, hsize]
  | cons error errors => rfl

end Code

namespace Filling

theorem position_step (state : Filling) (item : Item) : (step state item).position = state.position + item.size := by
  cases item with
  | bytes payload => rfl
  | ref name =>
    rw [step]
    split <;> rfl
  | label name =>
    rw [step]
    split <;> simp [Item.size]

theorem position_run (state : Filling) (items : List Item) :
    (run state items).position = state.position + Item.span items := by
  induction items generalizing state with
  | nil => simp
  | cons item rest ih => rw [run_cons, ih, position_step, Item.span_cons, Int.natCast_add, Int.add_assoc]

/-- A run records the labels in range, in their order. -/
theorem table_run (state : Filling) (items : List Item) :
    (run state items).table =
      state.table.setAll (((Item.labelsFrom state.position items).filter Label.fits).map Label.symbol) := by
  induction items generalizing state with
  | nil => rfl
  | cons item rest ih =>
    rw [run_cons, ih]
    cases item with
    | bytes payload => rfl
    | ref name =>
      rw [step]
      split <;> rfl
    | label name =>
      rw [Item.labelsFrom, step]
      by_cases h : Offset.Fits state.position
      · have hfits : (⟨name, state.position⟩ : Label).fits = true := Label.fits_iff.mpr h
        rw [Offset.ofInt?_of_fits h, List.filter_cons_of_pos hfits]
        rfl
      · have hfits : ¬(⟨name, state.position⟩ : Label).fits = true := fun hfits => h (Label.fits_iff.mp hfits)
        rw [Offset.ofInt?_of_not_fits h, List.filter_cons_of_neg hfits]

theorem definer?_run (state : Filling) (items : List Item) (name : SymbolName) :
    (run state items).table.definer? name = state.table.definer? name := by
  rw [table_run, SymbolTable.definer?_setAll]

/-- Two passes at one point whose tables bind every name alike. -/
structure Agree (s t : Filling) : Prop where
  position : s.position = t.position
  binding? : ∀ name, s.table.binding? name = t.table.binding? name
  bytes : s.bytes = t.bytes
  errors : s.errors = t.errors

theorem Agree.step {s t : Filling} (h : Agree s t) (item : Item) : Agree (s.step item) (t.step item) := by
  obtain ⟨hposition, hbinding, hbytes, herrors⟩ := h
  cases item with
  | bytes payload => exact ⟨by simp [Filling.step, hposition], hbinding, by simp [Filling.step, hbytes], herrors⟩
  | ref name =>
    have hoffset : s.table.offset? name = t.table.offset? name := by
      rw [SymbolTable.offset?_eq, SymbolTable.offset?_eq, hbinding]
    rw [Filling.step, Filling.step, hoffset]
    cases t.table.offset? name with
    | none => exact ⟨by simp [hposition], hbinding, by simp [hbytes], by simp [herrors]⟩
    | some offset => exact ⟨by simp [hposition], hbinding, by simp [hbytes], herrors⟩
  | label name =>
    rw [Filling.step, Filling.step, hposition]
    cases Offset.ofInt? t.position with
    | none => exact ⟨rfl, hbinding, hbytes, by simp [herrors]⟩
    | some offset => exact ⟨rfl, fun other => by simp [hbinding], hbytes, herrors⟩

theorem Agree.run {s t : Filling} (h : Agree s t) (items : List Item) : Agree (s.run items) (t.run items) := by
  induction items generalizing s t with
  | nil => exact h
  | cons item rest ih => exact ih (h.step item)

def missing (table : SymbolTable) (items : List Item) : List SymbolName :=
  (items.filterMap Item.refName?).filter fun name => (table.offset? name).isNone

/-- The labels that lie ahead are in range, and their names are defined already. -/
def Known (state : Filling) (items : List Item) : Prop :=
  ∀ label ∈ Item.labelsFrom state.position items,
    Offset.Fits label.position ∧ (state.table.offset? label.name).isSome

theorem missing_congr {s t : SymbolTable} (h : ∀ name, (s.offset? name).isSome = (t.offset? name).isSome)
    (items : List Item) : missing s items = missing t items := by
  have hnone (name : SymbolName) : (s.offset? name).isNone = (t.offset? name).isNone := by
    rw [← Option.not_isSome, ← Option.not_isSome, h]
  simp only [missing, hnone]

private theorem Known.step {state : Filling} {item : Item} {items : List Item} (h : Known state (item :: items)) :
    Known (step state item) items ∧
      (step state item).errors = state.errors ++ (missing state.table [item]).map .unresolved ∧
      ∀ name, ((step state item).table.offset? name).isSome = (state.table.offset? name).isSome := by
  cases item with
  | bytes payload => exact ⟨h, by simp [Filling.step, missing, Item.refName?], fun _ => rfl⟩
  | ref name =>
    rw [Filling.step]
    cases hname : state.table.offset? name with
    | none => exact ⟨h, by simp [missing, Item.refName?, hname], fun _ => rfl⟩
    | some offset => exact ⟨h, by simp [missing, Item.refName?, hname], fun _ => rfl⟩
  | label name =>
    -- recording the label anew defines no name that was not defined
    obtain ⟨hfits, hdefined⟩ := h ⟨name, state.position⟩ List.mem_cons_self
    have hkeep (other : SymbolName) :
        ((state.table.set name (.defined (Int16.ofInt state.position))).offset? other).isSome =
          (state.table.offset? other).isSome := by
      rw [SymbolTable.offset?_eq, SymbolTable.binding?_set]
      by_cases hother : name = other
      · subst hother
        simpa [Binding.offset?] using hdefined.symm
      · rw [if_neg hother, ← SymbolTable.offset?_eq]
    simp only [Filling.step, Offset.ofInt?_of_fits hfits]
    refine ⟨?_, by simp [missing, Item.refName?], hkeep⟩
    intro later hlater
    rw [hkeep]
    exact h later (List.mem_cons_of_mem _ hlater)

theorem Known.run {state : Filling} {items : List Item} (h : Known state items) :
    (run state items).errors = state.errors ++ (missing state.table items).map .unresolved ∧
      ∀ name, ((run state items).table.offset? name).isSome = (state.table.offset? name).isSome := by
  induction items generalizing state with
  | nil => simp [missing]
  | cons item rest ih =>
    obtain ⟨hrest, herrors, hkeep⟩ := h.step
    obtain ⟨hrun, hrunKeep⟩ := ih hrest
    rw [run_cons]
    refine ⟨?_, fun name => by rw [hrunKeep, hkeep]⟩
    rw [hrun, herrors, missing_congr hkeep, List.append_assoc, ← List.map_append]
    congr 2
    rw [missing, missing, missing, ← List.filter_append, ← List.filterMap_append, List.singleton_append]

theorem Known.append {state : Filling} {first second : List Item} (h : Known state (first ++ second)) :
    Known state first ∧ Known (state.run first) second := by
  have hlabels := Item.labelsFrom_append state.position first second
  have hfirst : Known state first := fun label hlabel =>
    h label (hlabels ▸ List.mem_append_left _ hlabel)
  refine ⟨hfirst, ?_⟩
  intro label hlabel
  rw [hfirst.run.2]
  rw [position_run] at hlabel
  exact h label (hlabels ▸ List.mem_append_right _ hlabel)

/-- The labels that lie ahead are recorded at the positions where they stand. -/
def Settled (state : Filling) (items : List Item) : Prop :=
  ∀ label ∈ Item.labelsFrom state.position items,
    Offset.Fits label.position ∧ state.table.offset? label.name = some (Int16.ofInt label.position)

private theorem Settled.step {state : Filling} {item : Item} {items : List Item}
    (h : Settled state (item :: items)) :
    Settled (state.step item) items ∧ (state.step item).table = state.table := by
  cases item with
  | bytes payload => exact ⟨h, rfl⟩
  | ref name =>
    rw [Filling.step]
    cases state.table.offset? name <;> exact ⟨h, rfl⟩
  | label name =>
    obtain ⟨hfits, hrecorded⟩ := h ⟨name, state.position⟩ List.mem_cons_self
    simp only [Filling.step, Offset.ofInt?_of_fits hfits, SymbolTable.set_of_offset? hrecorded, and_true]
    intro later hlater
    exact h later (List.mem_cons_of_mem _ hlater)

/-- A run that finds its labels settled leaves the table alone, so that each reference is filled in by what
the table holds in the end. -/
theorem Settled.run {state : Filling} {items : List Item} (h : Settled state items)
    (hrefs : ∀ name, .ref name ∈ items → (state.table.offset? name).isSome) :
    (state.run items).table = state.table ∧
      (state.run items).bytes = state.bytes ++ items.flatMap (Item.content state.table) := by
  induction items generalizing state with
  | nil => simp
  | cons item rest ih =>
    obtain ⟨hrest, htable⟩ := h.step
    have hlater (name : SymbolName) (hname : .ref name ∈ rest) : ((state.step item).table.offset? name).isSome := by
      rw [htable]
      exact hrefs name (List.mem_cons_of_mem _ hname)
    obtain ⟨hrunTable, hrunBytes⟩ := ih hrest hlater
    have hbytes : (state.step item).bytes = state.bytes ++ item.content state.table := by
      cases item with
      | bytes payload => rfl
      | ref name =>
        obtain ⟨offset, hoffset⟩ := Option.isSome_iff_exists.mp (hrefs name List.mem_cons_self)
        simp [Filling.step, Item.content, hoffset]
      | label name =>
        rw [Filling.step]
        split <;> simp [Item.content]
    rw [run_cons, hrunTable, hrunBytes, htable, hbytes, List.flatMap_cons, List.append_assoc]
    exact ⟨rfl, rfl⟩

/-- Two passes at one point that have put out the same. The second has every definition of the first. -/
structure Extends (s t : Filling) : Prop where
  position : t.position = s.position
  offset? : ∀ name offset, s.table.offset? name = some offset → t.table.offset? name = some offset
  bytes : t.bytes = s.bytes

theorem errors_of_run {state : Filling} {items : List Item} (h : (state.run items).errors = []) :
    state.errors = [] := by
  rw [run_eq] at h
  exact (List.append_eq_nil_iff.mp h).1

theorem Extends.step {s t : Filling} (h : Extends s t) {item : Item} (hnone : (s.step item).errors = []) :
    Extends (s.step item) (t.step item) := by
  cases item with
  | bytes payload =>
    refine ⟨?_, h.offset?, ?_⟩
    · simp [Filling.step, h.position]
    · simp [Filling.step, h.bytes]
  | ref name =>
    cases hname : s.table.offset? name with
    | none => simp [Filling.step, hname] at hnone
    | some offset =>
      have hlarger := h.offset? name offset hname
      simp only [Filling.step, hname, hlarger]
      exact ⟨by simp [h.position], h.offset?, by simp [h.bytes]⟩
  | label name =>
    cases hposition : Offset.ofInt? s.position with
    | none => simp [Filling.step, hposition] at hnone
    | some place =>
      simp only [Filling.step, h.position, hposition]
      refine ⟨rfl, ?_, h.bytes⟩
      intro other offset hother
      rw [SymbolTable.offset?_set] at hother ⊢
      split
      · next hsame => rwa [if_pos hsame] at hother
      · next hsame =>
        rw [if_neg hsame] at hother
        exact h.offset? other offset hother

/-- Where the smaller table suffices, the larger one gives the same bytes. -/
theorem Extends.run {s t : Filling} (h : Extends s t) {items : List Item} (hnone : (s.run items).errors = []) :
    Extends (s.run items) (t.run items) := by
  induction items generalizing s t with
  | nil => exact h
  | cons item rest ih => exact ih (h.step (errors_of_run hnone)) hnone

end Filling
end StackLink
