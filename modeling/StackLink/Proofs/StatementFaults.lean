import StackLink.Proofs.Consistency
import StackLink.Proofs.Findings
import StackLink.Proofs.Program

/-!
# Statements at fault

What is wrong with a statement depends on those before it: a label may have been taken, or come too late to be
reached. Assembling reports just the statements at fault, in their order. The labels that it keeps are then all in
reach, so that measuring the code finds nothing more to report, and each stands where the instructions before it end.
-/
namespace StackLink

namespace Statement

/-- The greatest distance of a label from the start of its module. -/
def reach : Nat := 32767

/-- A label of this name is among the statements, in reach of the start. -/
def Binds (statements : List Statement) (name : SymbolName) : Prop :=
  ∃ k < statements.length, statements[k]?.bind labelName? = some name ∧ extent (statements.take k) ≤ reach

instance (statements : List Statement) (name : SymbolName) : Decidable (Binds statements name) :=
  inferInstanceAs (Decidable (∃ k < statements.length, _))

/-- What is wrong with a statement that has the others before it. A call of a name is always in order. -/
def fault? (before : List Statement) : Statement → Option AssemblyError
  | label token =>
    if Binds before token.text then some (.duplicateLabel before.length token.text)
    else if reach < extent before then some (.labelOutOfRange before.length token.text)
    else none
  | instruction ⟨.call, _⟩ (some ⟨.ident, _⟩) => none
  | instruction mnemonic operand =>
    match Instruction.encode mnemonic operand with
    | .ok _ => none
    | .error e => some (.encoding before.length e)

def mention? : Statement → Option SymbolName
  | label token => some token.text
  | instruction ⟨.call, _⟩ (some ⟨.ident, target⟩) => some target
  | instruction _ _ => none

/-- The target of a call is left open if it is a name. -/
def CallsName (mnemonic : Token) (operand : Option Token) : Prop :=
  ∃ text name, mnemonic = ⟨.call, text⟩ ∧ operand = some ⟨.ident, name⟩

theorem assembleInstruction_of_not_callsName {mnemonic : Token} {operand : Option Token}
    (h : ¬CallsName mnemonic operand) :
    assembleInstruction mnemonic operand =
      (Instruction.encode mnemonic operand).map fun instruction => .bytes instruction.toBytes := by
  obtain ⟨tag, text⟩ := mnemonic
  unfold assembleInstruction
  split
  · next name htag =>
    cases htag
    exact absurd ⟨text, name, rfl, rfl⟩ h
  · rfl

theorem fault?_instruction (before : List Statement) (mnemonic : Token) (operand : Option Token) :
    (instruction mnemonic operand).fault? before =
      match assembleInstruction mnemonic operand with
      | .ok _ => none
      | .error e => some (.encoding before.length e) := by
  by_cases hcall : CallsName mnemonic operand
  · obtain ⟨text, name, rfl, rfl⟩ := hcall
    rfl
  · rw [assembleInstruction_of_not_callsName hcall, fault?]
    · cases Instruction.encode mnemonic operand <;> rfl
    · intro text name hmnemonic hoperand
      exact hcall ⟨text, name, hmnemonic, hoperand⟩

/-- A statement takes the room of its code, and none if it has no code. -/
theorem size_instruction (mnemonic : Token) (operand : Option Token) :
    (instruction mnemonic operand).size =
      match assembleInstruction mnemonic operand with
      | .ok code => code.size
      | .error _ => 0 := by
  by_cases hcall : CallsName mnemonic operand
  · obtain ⟨text, name, rfl, rfl⟩ := hcall
    rfl
  · rw [assembleInstruction_of_not_callsName hcall, size]
    · cases hencode : Instruction.encode mnemonic operand with
      | ok i => exact (Instruction.wellFormed_of_encode hencode).length_toBytes.symm
      | error e => rfl
    · intro text name hmnemonic hoperand
      exact hcall ⟨text, name, hmnemonic, hoperand⟩

theorem labelsFrom_assembleInstruction {mnemonic : Token} {operand : Option Token} {code : Code}
    (h : assembleInstruction mnemonic operand = .ok code) (position : Int) :
    Item.labelsFrom position code.items = [] := by
  have hitems : (instruction mnemonic operand).items = code.items := by
    rw [items, h]
    rfl
  have hassembles : (instruction mnemonic operand).Assembles := ⟨code, h⟩
  rw [← List.map_eq_nil_iff, Item.map_name_labelsFrom, ← hitems, hassembles.filterMap_labelName?_items]
  rfl

theorem binds_concat {statements : List Statement} {statement : Statement} {name : SymbolName} :
    Binds (statements ++ [statement]) name ↔
      Binds statements name ∨ statement.labelName? = some name ∧ extent statements ≤ reach := by
  have hearlier (k : Nat) (hk : k < statements.length) :
      (statements ++ [statement])[k]? = statements[k]? ∧ (statements ++ [statement]).take k = statements.take k :=
    ⟨List.getElem?_append_left hk, List.take_append_of_le_length (Nat.le_of_lt hk)⟩
  constructor
  · intro h
    obtain ⟨k, hk, hlabel, hextent⟩ := h
    by_cases hlt : k < statements.length
    · rw [(hearlier k hlt).1] at hlabel
      rw [(hearlier k hlt).2] at hextent
      exact .inl ⟨k, hlt, hlabel, hextent⟩
    · have hlast : k = statements.length := by
        rw [List.length_append, List.length_singleton] at hk
        omega
      subst hlast
      right
      simpa using And.intro hlabel hextent
  · intro h
    cases h with
    | inl h =>
      obtain ⟨k, hk, hlabel, hextent⟩ := h
      refine ⟨k, by simp; omega, ?_, ?_⟩
      · rw [(hearlier k hk).1, hlabel]
      · rw [(hearlier k hk).2]
        exact hextent
    | inr h => exact ⟨statements.length, by simp, by simpa using h⟩

theorem fault?_label_eq_none_iff {before : List Statement} {token : Token} :
    (label token).fault? before = none ↔ ¬Binds before token.text ∧ extent before ≤ reach := by
  rw [fault?]
  by_cases hbinds : Binds before token.text
  · simp [hbinds]
  · by_cases hfar : reach < extent before
    · simp [hbinds, hfar]
    · simp [hbinds, hfar, Nat.le_of_not_lt hfar]

theorem binds_iff {statements : List Statement} {name : SymbolName} :
    Binds statements name ↔
      ∃ before token after, statements = before ++ .label token :: after ∧ token.text = name ∧
        (label token).fault? before = none := by
  induction statements using List.reverseRecOn with
  | nil => simp [Binds]
  | append_singleton statements statement ih =>
    rw [binds_concat]
    constructor
    · intro h
      -- the last label of the name was accepted only if none before it was
      by_cases hearlier : Binds statements name
      · obtain ⟨before, token, after, hsplit, hname, hfault⟩ := ih.mp hearlier
        exact ⟨before, token, after ++ [statement], by simp [hsplit], hname, hfault⟩
      · have hlast := h.resolve_left hearlier
        cases statement with
        | label token =>
          have hname : token.text = name := Option.some.inj hlast.1
          refine ⟨statements, token, [], rfl, hname, fault?_label_eq_none_iff.mpr ⟨?_, hlast.2⟩⟩
          rw [hname]
          exact hearlier
        | instruction mnemonic operand => cases hlast.1
    · intro h
      obtain ⟨before, token, after, hsplit, hname, hfault⟩ := h
      rcases List.eq_nil_or_concat after with rfl | ⟨rest, last, rfl⟩
      · obtain ⟨rfl, hlast⟩ := List.append_inj' hsplit rfl
        cases hlast
        exact .inr ⟨congrArg some hname, (fault?_label_eq_none_iff.mp hfault).2⟩
      · left
        apply ih.mpr
        rw [List.concat_eq_append, ← List.cons_append, ← List.append_assoc] at hsplit
        exact ⟨before, token, rest, (List.append_inj' hsplit rfl).1, hname, hfault⟩

end Statement

namespace Assembly

open Statement

/-- What the state says of the statements taken so far, with errors or without. -/
structure Accounts (state : Assembly) (statements : List Statement) : Prop where
  count : state.count = statements.length
  offset : state.offset = extent statements
  span : Item.span (state.nodes.toList.flatMap Code.items) = extent statements
  labels : ∀ name, state.labels.contains name ↔ Binds statements name
  fits : ∀ label ∈ Item.labelsFrom 0 (state.nodes.toList.flatMap Code.items), Offset.Fits label.position
  errors : state.errors.toList = findings fault? statements

namespace Accounts

variable {state : Assembly} {statements : List Statement} {statement : Statement}

theorem start : Accounts Assembly.start [] where
  count := rfl
  offset := rfl
  span := rfl
  labels := by simp [Assembly.start, Binds]
  fits := by simp [Assembly.start, Item.labelsFrom]
  errors := rfl

/-- A statement at fault leaves a report and nothing else. -/
theorem report (h : Accounts state statements) {error : AssemblyError} (hsize : statement.size = 0)
    (hfault : statement.fault? statements = some error)
    (hbinds : ∀ name, Binds (statements ++ [statement]) name ↔ Binds statements name) :
    Accounts { state with count := state.count + 1, errors := state.errors.push error }
      (statements ++ [statement]) where
  count := by simp [h.count]
  offset := by simp [h.offset, extent, hsize]
  span := by simp [h.span, extent, hsize]
  labels := by
    intro name
    rw [hbinds, h.labels]
  fits := h.fits
  errors := by simp [findings_concat, h.errors, hfault]

/-- Any other statement leaves its code. -/
theorem keep (h : Accounts state statements) {code : Code} {offset : Nat} {labels : Std.ExtTreeMap SymbolName Nat}
    (hsize : code.size = statement.size) (hoffset : offset = state.offset + statement.size)
    (hfault : statement.fault? statements = none)
    (hbinds : ∀ name, labels.contains name ↔ Binds (statements ++ [statement]) name)
    (hfits : ∀ label ∈ Item.labelsFrom (extent statements) code.items, Offset.Fits label.position) :
    Accounts ⟨state.count + 1, offset, labels, state.nodes.push code, state.errors⟩ (statements ++ [statement]) where
  count := by simp [h.count]
  offset := by simp [hoffset, h.offset, extent]
  span := by simp [h.span, extent, hsize]
  labels := hbinds
  fits := by
    intro label hlabel
    simp only [Array.toList_push, List.flatMap_append, List.flatMap_singleton, Item.labelsFrom_append, h.span,
      Int.zero_add, List.mem_append] at hlabel
    cases hlabel with
    | inl hearlier => exact h.fits label hearlier
    | inr hlast => exact hfits label hlast
  errors := by simp [findings_concat, h.errors, hfault]

theorem step (h : Accounts state statements) (statement : Statement) :
    Accounts (state.step statement) (statements ++ [statement]) := by
  cases statement with
  | label token =>
    obtain ⟨tag, name⟩ := token
    have hlast : (label ⟨tag, name⟩).labelName? = some name := rfl
    rw [Assembly.step]
    by_cases htaken : state.labels.contains name
    · have hbinds := (h.labels name).mp htaken
      rw [if_pos htaken]
      apply h.report rfl
      · rw [fault?, if_pos hbinds, h.count]
      · -- the label may be in reach, but its name is taken already
        intro other
        rw [binds_concat, hlast]
        constructor
        · intro hor
          cases hor with
          | inl hother => exact hother
          | inr hnew => exact Option.some.inj hnew.1 ▸ hbinds
        · exact Or.inl
    · have hfree : ¬Binds statements name := fun hbinds => htaken ((h.labels name).mpr hbinds)
      rw [if_neg htaken]
      by_cases hfar : 32767 < state.offset
      · have hout : reach < extent statements := h.offset ▸ hfar
        rw [if_pos hfar]
        apply h.report rfl
        · rw [fault?, if_neg hfree, if_pos hout, h.count]
        · intro other
          simp [binds_concat, Nat.not_le_of_lt hout]
      · have hin : extent statements ≤ reach := h.offset ▸ Nat.le_of_not_lt hfar
        rw [if_neg hfar]
        apply h.keep
        · rfl
        · rfl
        · exact fault?_label_eq_none_iff.mpr ⟨hfree, hin⟩
        · intro other
          rw [binds_concat, hlast, ← h.labels other, Std.ExtTreeMap.contains_insert, Bool.or_eq_true, beq_iff_eq,
            Std.compare_eq_iff_eq]
          simp [hin, or_comm]
        · intro label hlabel
          simp only [Code.mark, Code.items, Item.labelsFrom, if_true, List.mem_singleton] at hlabel
          rw [reach] at hin
          rw [hlabel]
          constructor <;> simp only <;> omega
  | instruction mnemonic operand =>
    have hsize := size_instruction mnemonic operand
    have hfault := fault?_instruction statements mnemonic operand
    have hbinds (name : SymbolName) :
        Binds (statements ++ [instruction mnemonic operand]) name ↔ Binds statements name := by
      simp [binds_concat, labelName?]
    rw [Assembly.step]
    cases hcode : assembleInstruction mnemonic operand with
    | ok code =>
      rw [hcode] at hsize hfault
      apply h.keep hsize.symm (by rw [hsize]) hfault
      · intro name
        rw [hbinds, h.labels]
      · rw [labelsFrom_assembleInstruction hcode]
        simp
    | error e =>
      rw [hcode] at hsize hfault
      rw [← h.count] at hfault
      exact h.report hsize hfault hbinds

end Accounts

theorem accounts_run (statements : List Statement) : Accounts (run statements) statements := by
  induction statements using List.reverseRecOn with
  | nil => exact Accounts.start
  | append_singleton statements statement ih =>
    rw [run, List.foldl_append]
    exact ih.step statement

/-- The labels that were accepted are in range when the code is measured. -/
theorem exists_ofCode (name : ModuleName) (statements : List Statement) :
    ∃ m, Module.ofCode name (run statements).code = .ok m := by
  have hfits : (run statements).code.outlier? = none := by
    rw [Code.outlier?_eq_none_iff, Code.labels, Assembly.code, Code.items_sequence]
    exact (accounts_run statements).fits
  exact ⟨_, Module.ofCode_eq_ok_iff.mpr ⟨hfits, rfl⟩⟩

end Assembly

theorem assemble_cases (name : ModuleName) (statements : List Statement) :
    findings Statement.fault? statements = [] ∧ (∃ m, assemble name statements = .ok m) ∨
      findings Statement.fault? statements ≠ [] ∧
        assemble name statements = .error (findings Statement.fault? statements) := by
  rw [← (Assembly.accounts_run statements).errors, assemble]
  cases (Assembly.run statements).errors.toList with
  | nil =>
    obtain ⟨m, hm⟩ := Assembly.exists_ofCode name statements
    exact .inl ⟨rfl, m, by simp only [hm]⟩
  | cons error rest => exact .inr ⟨List.cons_ne_nil _ _, rfl⟩

namespace Statement

theorem Assembles.filterMap_mention?_items {statement : Statement} (h : statement.Assembles) :
    statement.items.filterMap Item.mention? = statement.mention?.toList := by
  cases statement with
  | label token => rfl
  | instruction mnemonic operand =>
    rcases h.cases with ⟨text, name, rfl, rfl, hitems⟩ | ⟨i, hencode, hitems⟩
    · rw [hitems]
      rfl
    · rw [hitems, mention?]
      · rfl
      · intro text name hmnemonic hoperand
        rw [hmnemonic, hoperand] at hencode
        cases hencode

theorem span_flatMap_items {statements : List Statement} (h : ∀ statement ∈ statements, statement.Assembles) :
    Item.span (statements.flatMap items) = extent statements := by
  induction statements with
  | nil => rfl
  | cons statement rest ih =>
    have hall := List.forall_mem_cons.mp h
    rw [List.flatMap_cons, Item.span_append, hall.1.span_items, ih hall.2, extent_cons]

end Statement

namespace Module

section Assembled

variable {m : Module} {statements : List Statement} (h : m.Assembled statements)
include h

theorem Assembled.mentions : m.code.mentions = statements.filterMap Statement.mention? := by
  rw [Code.mentions_eq, h.items, List.filterMap_flatMap, List.filterMap_eq_flatMap_toList]
  apply List.flatMap_congr
  intro statement hstatement
  exact (h.assembles statement hstatement).filterMap_mention?_items

theorem Assembled.size : m.code.size = Statement.extent statements := by
  rw [← Code.span_items, h.items, Statement.span_flatMap_items h.assembles]

theorem Assembled.mem_labels {before after : List Statement} {token : Token}
    (hsplit : statements = before ++ .label token :: after) :
    ⟨token.text, Statement.extent before⟩ ∈ m.code.labels := by
  have hbefore : ∀ statement ∈ before, statement.Assembles := by
    intro statement hstatement
    apply h.assembles
    simp [hsplit, hstatement]
  rw [Code.labels, h.items, hsplit, List.flatMap_append, Item.labelsFrom_append,
    Statement.span_flatMap_items hbefore, Int.zero_add]
  simp [Statement.items, Item.labelsFrom]

end Assembled

section OfCode

variable {name : ModuleName} {code : Code} {m : Module} (h : ofCode name code = .ok m)
include h

theorem mem_manifest_of_ofCode {symbol : Symbol} :
    symbol ∈ m.manifest ↔
      symbol.name ∈ m.code.mentions ∧
        symbol.binding = .ofOffset? ((SymbolTable.ofSymbols (m.code.labels.map Label.symbol)).offset? symbol.name) := by
  obtain ⟨-, rfl⟩ := ofCode_eq_ok_iff.mp h
  simp only [SymbolTable.listing, Code.symbolNames, List.mem_map, List.mem_eraseDups]
  constructor
  · intro hsymbol
    obtain ⟨other, hother, rfl⟩ := hsymbol
    exact ⟨hother, rfl⟩
  · intro hsymbol
    exact ⟨symbol.name, hsymbol.1, by rw [← hsymbol.2]⟩

theorem defined_of_ofCode (hunique : (m.code.labels.map Label.name).Nodup) {label : Label}
    (hlabel : label ∈ m.code.labels) :
    ∃ offset : Int16, ⟨label.name, .defined offset⟩ ∈ m.manifest ∧ offset.toInt = label.position := by
  have hfits : Offset.Fits label.position := by
    obtain ⟨hfits, rfl⟩ := ofCode_eq_ok_iff.mp h
    exact Code.outlier?_eq_none_iff.mp hfits label hlabel
  have hsymbols : ((m.code.labels.map Label.symbol).map Symbol.name).Nodup := by
    simpa [Function.comp_def] using hunique
  have hbinding := Manifest.binding?_of_nodup hsymbols (List.mem_map_of_mem hlabel)
  refine ⟨Int16.ofInt label.position, (mem_manifest_of_ofCode h).mpr ⟨?_, ?_⟩, Offset.toInt_ofInt_of_fits hfits⟩
  · exact Code.mem_mentions_iff.mpr (.inl (Item.mem_map_name_labelsFrom_iff.mp (List.mem_map_of_mem hlabel)))
  · rw [SymbolTable.offset?_eq, SymbolTable.binding?_ofSymbols, ← Label.name_symbol, hbinding]
    rfl

theorem undefined_of_ofCode {symbol : Symbol} (hsymbol : symbol ∈ m.manifest)
    (hlabel : symbol.name ∉ m.code.labels.map Label.name) : symbol.binding = .undefined := by
  have hnone : Manifest.binding? (m.code.labels.map Label.symbol) symbol.name = none := by
    rw [Manifest.binding?_eq_none_iff, List.map_map]
    exact hlabel
  rw [((mem_manifest_of_ofCode h).mp hsymbol).2, SymbolTable.offset?_eq, SymbolTable.binding?_ofSymbols, hnone]
  rfl

end OfCode

end Module

/-- Assembling fails just if some statement is at fault, and reports each such statement once and in order. A label is
a duplicate just if one of its name has been accepted before it. Measuring the code of the statements never fails.
Without a fault the code takes the room of the instructions, and the manifest lists each name once by first mention:
a label where the instructions before it end, and a name that is only called as undefined. -/
theorem assemble_exact (name : ModuleName) (statements : List Statement) :
    ((∃ errors, assemble name statements = .error errors) ↔
      ∃ before statement after, statements = before ++ statement :: after ∧ (statement.fault? before).isSome) ∧
    (∀ errors, assemble name statements = .error errors → errors = findings Statement.fault? statements) ∧
    (∀ before symbol, Statement.Binds before symbol ↔
      ∃ earlier token later, before = earlier ++ .label token :: later ∧ token.text = symbol ∧
        (Statement.label token).fault? earlier = none) ∧
    (∃ m, Module.ofCode name (Assembly.run statements).code = .ok m) ∧
    ∀ m, assemble name statements = .ok m →
      m.code.size = Statement.extent statements ∧
      Appearances (statements.filterMap Statement.mention?) (m.manifest.map Symbol.name) ∧
      (∀ before token after, statements = before ++ .label token :: after →
        ∃ offset : Int16, ⟨token.text, .defined offset⟩ ∈ m.manifest ∧ offset.toInt = Statement.extent before) ∧
      ∀ symbol ∈ m.manifest, symbol.name ∉ statements.filterMap Statement.labelName? → symbol.binding = .undefined := by
  refine ⟨?_, ?_, fun _ _ => Statement.binds_iff, Assembly.exists_ofCode name statements, ?_⟩
  · rw [← findings_ne_nil_iff]
    rcases assemble_cases name statements with ⟨hnone, m, hm⟩ | ⟨hsome, herrors⟩
    · simp [hnone, hm]
    · simp [hsome, herrors]
  · intro errors h
    rcases assemble_cases name statements with ⟨-, m, hm⟩ | ⟨-, herrors⟩
    · rw [hm] at h
      cases h
    · rw [herrors] at h
      exact (Except.error.inj h).symm
  · intro m h
    have hcode := (ofCode_of_assemble h).2
    have hassembled := assembled_of_assemble h
    refine ⟨hassembled.size, ?_, ?_, ?_⟩
    · rw [← hassembled.mentions]
      exact (Module.consistent_of_ofCode hcode).manifest
    · intro before token after hsplit
      exact Module.defined_of_ofCode hcode hassembled.nodup_labels (hassembled.mem_labels hsplit)
    · intro symbol hsymbol hlabel
      apply Module.undefined_of_ofCode hcode hsymbol
      rw [Code.labels, Item.map_name_labelsFrom, hassembled.items,
        Statement.filterMap_labelName?_flatMap_items hassembled.assembles]
      exact hlabel

/-- A label is taken once for all, also across an instruction that cannot be encoded. The other list calls a name
before its label and one that has none. -/
theorem assemble_exact_pair :
    let call (name : SymbolName) : Statement := .instruction ⟨.call, "call"⟩ (some ⟨.ident, name⟩)
    let faulty : List Statement := [.label ⟨.ident, "a"⟩, .instruction ⟨.ident, "foo"⟩ none, .label ⟨.ident, "a"⟩,
      call "a", .label ⟨.ident, "a"⟩]
    let sound : List Statement := [call "a", call "b", .label ⟨.ident, "a"⟩, .instruction ⟨.ret, "ret"⟩ none]
    (∃ errors, assemble "m" faulty = .error errors ∧
      errors = [.encoding 1 (.notAMnemonic ⟨.ident, "foo"⟩), .duplicateLabel 2 "a", .duplicateLabel 4 "a"]) ∧
    ∃ m, assemble "m" sound = .ok m ∧ m.code.size = 7 ∧ Appearances ["a", "b", "a"] (m.manifest.map Symbol.name) ∧
      (∃ offset : Int16, ⟨"a", .defined offset⟩ ∈ m.manifest ∧ offset.toInt = 6) ∧
      ∀ symbol ∈ m.manifest, symbol.name = "b" → symbol.binding = .undefined := by
  intro call faulty sound
  constructor
  · obtain ⟨hfails, hreport, -⟩ := assemble_exact "m" faulty
    obtain ⟨errors, herrors⟩ := hfails.mpr ⟨[.label ⟨.ident, "a"⟩], .instruction ⟨.ident, "foo"⟩ none, _, rfl, rfl⟩
    refine ⟨errors, herrors, ?_⟩
    rw [hreport errors herrors]
    decide
  · obtain ⟨hfails, -, -, -, hlayout⟩ := assemble_exact "m" sound
    have hsound : findings Statement.fault? sound = [] := by decide
    cases hassemble : assemble "m" sound with
    | error errors => exact absurd hsound (findings_ne_nil_iff.mpr (hfails.mp ⟨errors, hassemble⟩))
    | ok m =>
      obtain ⟨hsize, hlisted, hdefined, hundefined⟩ := hlayout m hassemble
      refine ⟨m, rfl, hsize, hlisted, hdefined [call "a", call "b"] ⟨.ident, "a"⟩ _ rfl, ?_⟩
      intro symbol hsymbol hname
      apply hundefined symbol hsymbol
      rw [hname]
      decide

end StackLink
