import Mathlib.Data.List.Forall2
import StackLink.Proofs.Assembly
import StackLink.Proofs.Image

/-!
# Programs and the listings of their images

The statements of the modules of a link, one module after another, form one program. The listing of its image
gives back the instructions of this program, with a call of a label by name as a call of where the label stands.
-/
namespace StackLink

private theorem exists_of_mem_right {α β : Type} {R : α → β → Prop} {xs : List α} {ys : List β}
    (h : List.Forall₂ R xs ys) {y : β} (hy : y ∈ ys) : ∃ x, R x y := by
  induction h with
  | nil => cases hy
  | cons hfirst hrest ih =>
    rcases List.mem_cons.mp hy with rfl | hy
    · exact ⟨_, hfirst⟩
    · exact ih hy

namespace Statement

def extent : List Statement → Nat
  | [] => 0
  | statement :: rest => statement.size + extent rest

/-- In a program a label of this name comes after instructions of this size in all. -/
def LabelAt (program : List Statement) (name : SymbolName) (position : Nat) : Prop :=
  ∃ before tag after, program = before ++ .label ⟨tag, name⟩ :: after ∧ extent before = position

/-- The instruction that a statement stands for in a program. -/
inductive Denotes (program : List Statement) : Statement → Instruction → Prop
  | encoded {mnemonic : Token} {operand : Option Token} {i : Instruction}
      (h : Instruction.encode mnemonic operand = .ok i) : Denotes program (.instruction mnemonic operand) i
  | call {text : String} {name : SymbolName} {position : Nat} {target : Int16}
      (hlabel : LabelAt program name position) (htarget : target.toInt = position) :
      Denotes program (.instruction ⟨.call, text⟩ (some ⟨.ident, name⟩)) (.call target)

@[simp] theorem extent_cons (statement : Statement) (statements : List Statement) :
    extent (statement :: statements) = statement.size + extent statements := rfl

@[simp] theorem extent_append (first second : List Statement) :
    extent (first ++ second) = extent first + extent second := by
  induction first with
  | nil => simp [extent]
  | cons statement rest ih => simp [ih, Nat.add_assoc]

theorem Denotes.wellFormed {program : List Statement} {statement : Statement} {i : Instruction}
    (h : Denotes program statement i) : i.WellFormed := by
  cases h with
  | encoded hencode => exact Instruction.wellFormed_of_encode hencode
  | call hlabel htarget => rfl

theorem Denotes.size_eq {program : List Statement} {statement : Statement} {i : Instruction}
    (h : Denotes program statement i) : statement.size = i.size := by
  cases h with
  | encoded hencode => exact size_of_encode hencode
  | call hlabel htarget => rfl

theorem labelAt_of_mem_labelsFrom {program : List Statement} (hassembles : ∀ statement ∈ program, statement.Assembles)
    {base : Int} {label : Label} (h : label ∈ Item.labelsFrom base (program.flatMap items)) :
    ∃ position, LabelAt program label.name position ∧ label.position = base + position := by
  induction program generalizing base with
  | nil => cases h
  | cons statement rest ih =>
    obtain ⟨hfirst, hrest⟩ := List.forall_mem_cons.mp hassembles
    rw [List.flatMap_cons, Item.labelsFrom_append, List.mem_append, hfirst.span_items] at h
    rcases h with hown | hlater
    · cases statement with
      | label token =>
        rw [List.mem_singleton.mp hown]
        exact ⟨0, ⟨[], token.tag, rest, rfl, rfl⟩, (Int.add_zero base).symm⟩
      | instruction mnemonic operand =>
        have hnone : Item.labelsFrom base (instruction mnemonic operand).items = [] := by
          rw [← List.map_eq_nil_iff, Item.map_name_labelsFrom, hfirst.filterMap_labelName?_items]
          rfl
        rw [hnone] at hown
        cases hown
    · obtain ⟨position, ⟨before, tag, after, hprogram, hextent⟩, hposition⟩ := ih hrest hlater
      refine ⟨statement.size + position, ⟨statement :: before, tag, after, ?_, ?_⟩, ?_⟩
      · rw [hprogram, List.cons_append]
      · rw [extent_cons, hextent]
      · rw [hposition, Int.natCast_add, Int.add_assoc]

/-- Statements give the bytes of the instructions that they stand for, if the table has each name to which they
refer where its label stands. -/
theorem exists_denoted {program statements : List Statement} {table : SymbolTable}
    (hassembles : ∀ statement ∈ statements, statement.Assembles)
    (hrefs : ∀ name, .ref name ∈ statements.flatMap items →
      ∃ (position : Nat) (target : Int16), LabelAt program name position ∧ target.toInt = position ∧
        table.offset? name = some target) :
    ∃ instructions, List.Forall₂ (Denotes program) (statements.filter isInstruction) instructions ∧
      (statements.flatMap items).flatMap (Item.content table) = instructions.flatMap Instruction.toBytes := by
  induction statements with
  | nil => exact ⟨[], .nil, rfl⟩
  | cons statement rest ih =>
    obtain ⟨hfirst, hrest⟩ := List.forall_mem_cons.mp hassembles
    rw [List.flatMap_cons] at hrefs ⊢
    obtain ⟨instructions, hdenotes, hbytes⟩ := ih hrest fun name hname =>
      hrefs name (List.mem_append_right _ hname)
    rw [List.flatMap_append, hbytes]
    cases statement with
    | label token => exact ⟨instructions, hdenotes, rfl⟩
    | instruction mnemonic operand =>
      rcases hfirst.cases with ⟨text, name, rfl, rfl, hitems⟩ | ⟨i, hencode, hitems⟩
      · rw [hitems] at hrefs ⊢
        obtain ⟨position, target, hlabel, htarget, hoffset⟩ := hrefs name (by simp)
        refine ⟨.call target :: instructions, .cons (.call hlabel htarget) hdenotes, ?_⟩
        simp [Item.content, hoffset, Instruction.toBytes, Instruction.opcode, Instruction.operandBytes]
      · refine ⟨i :: instructions, .cons (.encoded hencode) hdenotes, ?_⟩
        rw [hitems]
        simp [Item.content]

theorem boundary_of_forall₂ {program before after : List Statement} {instructions : List Instruction}
    (h : List.Forall₂ (Denotes program) ((before ++ after).filter isInstruction) instructions) (offset : Nat) :
    (∃ row ∈ Listing.rowsFrom offset instructions, row.offset = offset + extent before) ∨
      (instructions.flatMap Instruction.toBytes).length = extent before := by
  induction before generalizing instructions offset with
  | nil =>
    cases instructions with
    | nil => exact .inr rfl
    | cons i rest => exact .inl ⟨⟨offset, i⟩, List.mem_cons_self, rfl⟩
  | cons statement before ih =>
    cases statement with
    | label token =>
      rw [extent_cons]
      simpa [size] using ih h offset
    | instruction mnemonic operand =>
      rw [List.cons_append, List.filter_cons_of_pos rfl] at h
      cases h with
      | cons hdenotes hrest =>
        rename_i i rest
        rw [extent_cons, hdenotes.size_eq, List.flatMap_cons, List.length_append, hdenotes.wellFormed.length_toBytes]
        rcases ih hrest (offset + i.size) with ⟨row, hrow, hoffset⟩ | hend
        · exact .inl ⟨row, List.mem_cons_of_mem _ hrow, by rw [hoffset, Nat.add_assoc]⟩
        · exact .inr (by rw [hend])

theorem filterMap_labelName?_flatMap_items {statements : List Statement}
    (h : ∀ statement ∈ statements, statement.Assembles) :
    (statements.flatMap items).filterMap Item.labelName? = statements.filterMap labelName? := by
  induction statements with
  | nil => rfl
  | cons statement rest ih =>
    obtain ⟨hfirst, hrest⟩ := List.forall_mem_cons.mp h
    rw [List.flatMap_cons, List.filterMap_append, hfirst.filterMap_labelName?_items, ih hrest]
    cases statement <;> rfl

end Statement

theorem Module.Assembled.nodup_labels {m : Module} {statements : List Statement} (h : m.Assembled statements) :
    (m.code.labels.map Label.name).Nodup := by
  rw [Code.labels, Item.map_name_labelsFrom, h.items, Statement.filterMap_labelName?_flatMap_items h.assembles]
  exact h.nodup

namespace Link

/-- Where no module labels a name twice and none defines a name of another, no name is labelled twice. -/
theorem DefinedOnce.nodup_labelNames {modules : List Module} (honce : DefinedOnce modules)
    (hunique : ∀ m ∈ modules, (m.code.labels.map Label.name).Nodup) :
    ((itemsOf modules).filterMap Item.labelName?).Nodup := by
  have hdefines {m : Module} {name : SymbolName} (h : name ∈ m.code.items.filterMap Item.labelName?) :
      (m.offset? name).isSome := by
    rw [← Item.map_name_labelsFrom 0] at h
    obtain ⟨label, hlabel, rfl⟩ := List.mem_map.mp h
    obtain ⟨last, -, -, -, hoffset⟩ := Module.offset?_of_mem_labels hlabel
    rw [hoffset, Option.isSome_some]
  induction modules with
  | nil => exact .nil
  | cons m rest ih =>
    obtain ⟨hfirst, hrest⟩ := List.pairwise_cons.mp honce
    obtain ⟨hm, huniqueRest⟩ := List.forall_mem_cons.mp hunique
    change ((m.code.items ++ itemsOf rest).filterMap Item.labelName?).Nodup
    rw [List.filterMap_append, List.nodup_append]
    refine ⟨?_, ih hrest huniqueRest, ?_⟩
    · rw [← Item.map_name_labelsFrom 0]
      exact hm
    · rintro name hname _ hlater rfl
      rw [itemsOf, List.filterMap_flatMap] at hlater
      obtain ⟨n, hn, hlater⟩ := List.mem_flatMap.mp hlater
      exact hfirst n hn name ⟨hdefines hname, hdefines hlater⟩

section Programs

variable {programs : List (ModuleName × List Statement)} {modules : List Module}
  (h : List.Forall₂ (fun program m => m.Assembled program.2) programs modules)

include h

theorem itemsOf_assembled : itemsOf modules = (programs.flatMap Prod.snd).flatMap Statement.items := by
  induction h with
  | nil => rfl
  | cons hfirst hrest ih =>
    rw [List.flatMap_cons, List.flatMap_append, ← ih, ← hfirst.items]
    rfl

theorem assembles_of_assembled : ∀ statement ∈ programs.flatMap Prod.snd, statement.Assembles := by
  induction h with
  | nil => simp
  | cons hfirst hrest ih =>
    rw [List.flatMap_cons]
    exact List.forall_mem_append.mpr ⟨hfirst.assembles, ih⟩

theorem nodup_labels_of_assembled : ∀ m ∈ modules, (m.code.labels.map Label.name).Nodup := by
  intro m hm
  obtain ⟨program, hassembled⟩ := exists_of_mem_right h hm
  exact hassembled.nodup_labels

/-- What a program refers to is labelled, and the merged table has it where the label stands. -/
theorem offset?_merged_of_ref (hmerge : Mergeable modules) (hresolved : Resolved modules) {name : SymbolName}
    (hname : .ref name ∈ (programs.flatMap Prod.snd).flatMap Statement.items) :
    ∃ (position : Nat) (target : Int16), Statement.LabelAt (programs.flatMap Prod.snd) name position ∧
      target.toInt = position ∧ (merged modules).offset? name = some target := by
  have hitems := itemsOf_assembled h
  rw [← hitems, itemsOf] at hname
  obtain ⟨m, hm, href⟩ := List.mem_flatMap.mp hname
  obtain ⟨n, hn, hdefined⟩ := hresolved m hm name (Code.mem_refs_iff.mpr href)
  obtain ⟨program, hassembled⟩ := exists_of_mem_right h hn
  have hlabel : .label name ∈ itemsOf modules := List.mem_flatMap.mpr ⟨n, hn, hassembled.defined name hdefined⟩
  obtain ⟨label, hlabel, rfl⟩ := List.mem_map.mp (Item.mem_map_name_labelsFrom_iff.mpr hlabel)
  obtain ⟨hfits, hoffset⟩ := hmerge.settled (nodup_labels_of_assembled h) label hlabel
  rw [hitems] at hlabel
  obtain ⟨position, hlabelAt, hposition⟩ := Statement.labelAt_of_mem_labelsFrom (assembles_of_assembled h) hlabel
  refine ⟨position, _, hlabelAt, ?_, hoffset⟩
  rw [Offset.toInt_ofInt_of_fits hfits, hposition]
  exact Int.zero_add _

end Programs

end Link

/-- The listing of the image that assembled modules link to gives back their instructions. A call by name goes to
the one label of this name in the whole program, and so to an instruction or to the end. -/
theorem listing_link_assemble {programs : List (ModuleName × List Statement)} {modules : List Module} {image : Image}
    (hassemble : List.Forall₂ (fun program m => assemble program.1 program.2 = .ok m) programs modules)
    (hlink : link modules = .ok image) :
    ∃ instructions,
      Listing.ofImage image.bytes = ⟨Listing.rowsFrom 0 instructions, none⟩ ∧
      List.Forall₂ (Statement.Denotes (programs.flatMap Prod.snd))
        ((programs.flatMap Prod.snd).filter Statement.isInstruction) instructions ∧
      ((programs.flatMap Prod.snd).filterMap Statement.labelName?).Nodup ∧
      ∀ name position, Statement.LabelAt (programs.flatMap Prod.snd) name position →
        (∃ row ∈ Listing.rowsFrom 0 instructions, row.offset = position) ∨ position = image.bytes.length := by
  have hassembled : List.Forall₂ (fun program m => m.Assembled program.2) programs modules :=
    hassemble.imp fun _ _ h => assembled_of_assemble h
  have hitems := Link.itemsOf_assembled hassembled
  have hall := Link.assembles_of_assembled hassembled
  have hunique := Link.nodup_labels_of_assembled hassembled
  obtain ⟨⟨hmerge, hresolved⟩, rfl⟩ := Link.link_eq_ok_iff.mp hlink
  obtain ⟨instructions, hdenotes, hcontent⟩ :=
    Statement.exists_denoted hall fun name hname => Link.offset?_merged_of_ref hassembled hmerge hresolved hname
  have hwell : ∀ i ∈ instructions, i.WellFormed := by
    intro i hi
    obtain ⟨statement, hstatement⟩ := exists_of_mem_right hdenotes hi
    exact hstatement.wellFormed
  have hbytes : (Link.imageOf modules).bytes = instructions.flatMap Instruction.toBytes := by
    rw [← hcontent, ← hitems]
    exact (hmerge.filled_eq hunique hresolved).2
  refine ⟨instructions, ?_, hdenotes, ?_, ?_⟩
  · rw [hbytes, Listing.ofImage_flatMap_toBytes hwell]
  · rw [← Statement.filterMap_labelName?_flatMap_items hall, ← hitems]
    exact hmerge.definedOnce.nodup_labelNames hunique
  · rintro name _ ⟨before, tag, after, hprogram, rfl⟩
    rw [hprogram] at hdenotes
    rw [hbytes]
    rcases Statement.boundary_of_forall₂ hdenotes 0 with ⟨row, hrow, hoffset⟩ | hend
    · exact .inl ⟨row, hrow, hoffset.trans (Nat.zero_add _)⟩
    · exact .inr hend.symm

/-- Two modules, with a call of a label in the other module and a call of the end of the image. -/
theorem listing_link_assemble_pair : ∃ modules image instructions,
    List.Forall₂ (fun program m => assemble program.1 program.2 = .ok m)
      [("main", [.instruction ⟨.call, "call"⟩ (some ⟨.ident, "f"⟩),
        .instruction ⟨.call, "call"⟩ (some ⟨.ident, "last"⟩), .instruction ⟨.halt, "end"⟩ none]),
      ("lib", [.label ⟨.ident, "f"⟩, .instruction ⟨.push, "push"⟩ (some ⟨.real, "2.5"⟩),
        .instruction ⟨.ret, "ret"⟩ none, .label ⟨.ident, "last"⟩])] modules ∧
    link modules = .ok image ∧
    Listing.ofImage image.bytes = ⟨Listing.rowsFrom 0 instructions, none⟩ ∧
    List.Forall₂ (Statement.Denotes [.instruction ⟨.call, "call"⟩ (some ⟨.ident, "f"⟩),
        .instruction ⟨.call, "call"⟩ (some ⟨.ident, "last"⟩), .instruction ⟨.halt, "end"⟩ none,
        .label ⟨.ident, "f"⟩, .instruction ⟨.push, "push"⟩ (some ⟨.real, "2.5"⟩),
        .instruction ⟨.ret, "ret"⟩ none, .label ⟨.ident, "last"⟩])
      [.instruction ⟨.call, "call"⟩ (some ⟨.ident, "f"⟩), .instruction ⟨.call, "call"⟩ (some ⟨.ident, "last"⟩),
        .instruction ⟨.halt, "end"⟩ none, .instruction ⟨.push, "push"⟩ (some ⟨.real, "2.5"⟩),
        .instruction ⟨.ret, "ret"⟩ none] instructions := by
  have hassemble : List.Forall₂ (fun program m => assemble program.1 program.2 = .ok m)
      [("main", [.instruction ⟨.call, "call"⟩ (some ⟨.ident, "f"⟩),
        .instruction ⟨.call, "call"⟩ (some ⟨.ident, "last"⟩), .instruction ⟨.halt, "end"⟩ none]),
      ("lib", [.label ⟨.ident, "f"⟩, .instruction ⟨.push, "push"⟩ (some ⟨.real, "2.5"⟩),
        .instruction ⟨.ret, "ret"⟩ none, .label ⟨.ident, "last"⟩])]
      [⟨"main", [⟨"f", .undefined⟩, ⟨"last", .undefined⟩],
        .seq (.seq (.bytes [23]) (.ref "f")) (.seq (.seq (.bytes [23]) (.ref "last")) (.bytes [0]))⟩,
      ⟨"lib", [⟨"f", .defined 0⟩, ⟨"last", .defined 10⟩],
        .seq (.seq (.mark "f") (.bytes [5, 0, 0, 0, 0, 0, 0, 4, 64])) (.seq (.bytes [1]) (.mark "last"))⟩] :=
    .cons (by decide +kernel) (.cons (by decide +kernel) .nil)
  obtain ⟨instructions, hlisting, hdenotes, -, -⟩ := listing_link_assemble hassemble rfl
  exact ⟨_, _, instructions, hassemble, rfl, hlisting, hdenotes⟩

end StackLink
