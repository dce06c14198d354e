import StackLink.Assembly
import StackLink.Proofs.Instruction
import StackLink.Proofs.Measure

/-!
# Modules of statements

A module that assembles holds what its statements say, one after another: the labels, all different, and the
instructions, each as its bytes or as a call whose target is left open.
-/
namespace StackLink

namespace Statement

def labelName? : Statement → Option SymbolName
  | label name => some name.text
  | instruction _ _ => none

def isInstruction : Statement → Bool
  | label _ => false
  | instruction _ _ => true

def size : Statement → Nat
  | label _ => 0
  | instruction ⟨.call, _⟩ (some ⟨.ident, _⟩) => Opcode.call.size
  | instruction mnemonic operand => (Instruction.encode mnemonic operand).toOption.elim 0 Instruction.size

def items : Statement → List Item
  | label name => [.label name.text]
  | instruction mnemonic operand => (assembleInstruction mnemonic operand).toOption.elim [] Code.items

def Assembles : Statement → Prop
  | label _ => True
  | instruction mnemonic operand => ∃ code, assembleInstruction mnemonic operand = .ok code

theorem size_of_encode {mnemonic : Token} {operand : Option Token} {i : Instruction}
    (h : Instruction.encode mnemonic operand = .ok i) : (instruction mnemonic operand).size = i.size := by
  unfold size
  split
  · rename_i hlabel
    cases hlabel
  · -- a call of a name is not encoded
    rename_i text name hcall
    cases hcall
    cases h
  · rename_i mnemonic' operand' _ hinstruction
    cases hinstruction
    rw [h]
    rfl

/-- An instruction is a call whose target is left open or is encoded as it is. -/
theorem Assembles.cases {mnemonic : Token} {operand : Option Token} (h : (instruction mnemonic operand).Assembles) :
    (∃ text name, mnemonic = ⟨.call, text⟩ ∧ operand = some ⟨.ident, name⟩ ∧
      (instruction mnemonic operand).items = [.bytes [Opcode.call.number], .ref name]) ∨
    ∃ i, Instruction.encode mnemonic operand = .ok i ∧
      (instruction mnemonic operand).items = [.bytes i.toBytes] := by
  obtain ⟨code, hcode⟩ := h
  have hitems : (instruction mnemonic operand).items = code.items := by
    rw [items, hcode]
    rfl
  rw [hitems]
  unfold assembleInstruction at hcode
  split at hcode
  · rename_i name htag
    cases hcode
    obtain ⟨tag, text⟩ := mnemonic
    cases htag
    exact .inl ⟨text, name, rfl, rfl, rfl⟩
  · rename_i operand _ _ _
    cases hencode : Instruction.encode mnemonic operand with
    | error e =>
      rw [hencode] at hcode
      cases hcode
    | ok i =>
      rw [hencode] at hcode
      cases hcode
      exact .inr ⟨i, rfl, by simp [Code.items, Instruction.toBytes]⟩

theorem Assembles.span_items {statement : Statement} (h : statement.Assembles) :
    Item.span statement.items = statement.size := by
  cases statement with
  | label name => rfl
  | instruction mnemonic operand =>
    rcases h.cases with ⟨text, name, rfl, rfl, hitems⟩ | ⟨i, hencode, hitems⟩
    · rw [hitems]
      rfl
    · rw [hitems, size_of_encode hencode, ← (Instruction.wellFormed_of_encode hencode).length_toBytes]
      simp [Item.size]

theorem Assembles.filterMap_labelName?_items {statement : Statement} (h : statement.Assembles) :
    statement.items.filterMap Item.labelName? = statement.labelName?.toList := by
  cases statement with
  | label name => rfl
  | instruction mnemonic operand =>
    rcases h.cases with ⟨text, name, -, -, hitems⟩ | ⟨i, -, hitems⟩
    · rw [hitems]
      rfl
    · rw [hitems]
      rfl

end Statement

namespace Assembly

/-- Statements have been taken without any error. -/
structure Sound (state : Assembly) (statements : List Statement) : Prop where
  items : state.nodes.toList.flatMap Code.items = statements.flatMap Statement.items
  contains : ∀ name, state.labels.contains name ↔ name ∈ statements.filterMap Statement.labelName?
  nodup : (statements.filterMap Statement.labelName?).Nodup
  assembles : ∀ statement ∈ statements, statement.Assembles

theorem sound_start : Sound start [] :=
  ⟨rfl, fun name => by simp [start], .nil, fun _ h => nomatch h⟩

theorem step_cases {state : Assembly} {statement : Statement} (h : (state.step statement).errors = #[]) :
    state.errors = #[] ∧
      ((∃ tag name, statement = .label ⟨tag, name⟩ ∧ state.labels.contains name = false ∧
        (state.step statement).labels = state.labels.insert name state.count ∧
        (state.step statement).nodes = state.nodes.push (.mark name)) ∨
      ∃ mnemonic operand code, statement = .instruction mnemonic operand ∧
        assembleInstruction mnemonic operand = .ok code ∧ (state.step statement).labels = state.labels ∧
        (state.step statement).nodes = state.nodes.push code) := by
  cases statement with
  | label token =>
    obtain ⟨tag, name⟩ := token
    rw [step] at h ⊢
    by_cases hname : state.labels.contains name
    · simp [hname] at h
    · by_cases hfar : 32767 < state.offset
      · simp [hname, hfar] at h
      · simp only [hname, hfar, if_false, Bool.false_eq_true] at h ⊢
        exact ⟨h, .inl ⟨tag, name, rfl, Bool.eq_false_iff.mpr hname, rfl, rfl⟩⟩
  | instruction mnemonic operand =>
    rw [step] at h ⊢
    cases hcode : assembleInstruction mnemonic operand with
    | error e => simp [hcode] at h
    | ok code =>
      rw [hcode] at h
      exact ⟨h, .inr ⟨mnemonic, operand, code, rfl, hcode, rfl, rfl⟩⟩

theorem Sound.step {state : Assembly} {statements : List Statement} (h : Sound state statements)
    {statement : Statement} (hnone : (state.step statement).errors = #[]) :
    Sound (state.step statement) (statements ++ [statement]) := by
  obtain ⟨hitems, hcontains, hnodup, hassembles⟩ := h
  rcases (step_cases hnone).2 with ⟨tag, name, rfl, hnew, hlabels, hnodes⟩ |
    ⟨mnemonic, operand, code, rfl, hcode, hlabels, hnodes⟩
  · have hnames : (statements ++ [Statement.label ⟨tag, name⟩]).filterMap Statement.labelName? =
        statements.filterMap Statement.labelName? ++ [name] := List.filterMap_append
    refine ⟨?_, ?_, ?_, ?_⟩
    · rw [hnodes]
      simp [hitems, Statement.items, Code.mark, Code.items]
    · intro other
      rw [hlabels, hnames, List.mem_append, List.mem_singleton, ← hcontains other, Std.ExtTreeMap.contains_insert,
        Bool.or_eq_true, beq_iff_eq, Std.compare_eq_iff_eq, or_comm]
      exact or_congr_right eq_comm
    · rw [hnames, List.nodup_append]
      refine ⟨hnodup, List.nodup_singleton _, ?_⟩
      intro other hother last hlast heq
      rw [heq, List.mem_singleton.mp hlast, ← hcontains, hnew] at hother
      cases hother
    · exact List.forall_mem_append.mpr ⟨hassembles, List.forall_mem_singleton.mpr trivial⟩
  · have hnames : (statements ++ [Statement.instruction mnemonic operand]).filterMap Statement.labelName? =
        statements.filterMap Statement.labelName? := by
      rw [List.filterMap_append]
      exact List.append_nil _
    refine ⟨?_, ?_, ?_, ?_⟩
    · rw [hnodes]
      simp [hitems, Statement.items, hcode, Except.toOption]
    · rw [hlabels, hnames]
      exact hcontains
    · rw [hnames]
      exact hnodup
    · exact List.forall_mem_append.mpr ⟨hassembles, List.forall_mem_singleton.mpr ⟨code, hcode⟩⟩

theorem errors_of_foldl_step {statements : List Statement} {state : Assembly}
    (h : (statements.foldl step state).errors = #[]) : state.errors = #[] := by
  induction statements generalizing state with
  | nil => exact h
  | cons statement rest ih => exact (step_cases (ih h)).1

theorem Sound.foldl_step {statements before : List Statement} {state : Assembly} (h : Sound state before)
    (hnone : (statements.foldl Assembly.step state).errors = #[]) :
    Sound (statements.foldl Assembly.step state) (before ++ statements) := by
  induction statements generalizing state before with
  | nil =>
    rw [List.append_nil]
    exact h
  | cons statement rest ih =>
    have hstep := h.step (errors_of_foldl_step hnone)
    rw [List.append_cons]
    exact ih hstep hnone

end Assembly

structure Module.Assembled (m : Module) (statements : List Statement) : Prop where
  items : m.code.items = statements.flatMap Statement.items
  nodup : (statements.filterMap Statement.labelName?).Nodup
  assembles : ∀ statement ∈ statements, statement.Assembles
  defined : ∀ name, (m.offset? name).isSome → .label name ∈ m.code.items

theorem ofCode_of_assemble {name : ModuleName} {statements : List Statement} {m : Module}
    (h : assemble name statements = .ok m) :
    (Assembly.run statements).errors = #[] ∧ Module.ofCode name (Assembly.run statements).code = .ok m := by
  unfold assemble at h
  simp only at h
  split at h
  · rename_i hnone
    split at h
    · rename_i result hcode
      cases h
      exact ⟨Array.toList_eq_nil_iff.mp hnone, hcode⟩
    · cases h
  · cases h

theorem assembled_of_assemble {name : ModuleName} {statements : List Statement} {m : Module}
    (h : assemble name statements = .ok m) : m.Assembled statements := by
  obtain ⟨hnone, hcode⟩ := ofCode_of_assemble h
  obtain ⟨hitems, -, hnodup, hassembles⟩ := Assembly.sound_start.foldl_step hnone
  refine ⟨?_, hnodup, hassembles, ?_⟩
  · rw [Module.code_of_ofCode hcode, Assembly.code, Code.items_sequence]
    exact hitems
  · intro symbol hdefined
    exact Item.mem_map_name_labelsFrom_iff.mp (Module.mem_labels_of_ofCode hcode hdefined)

end StackLink
