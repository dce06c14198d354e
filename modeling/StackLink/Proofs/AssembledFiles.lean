import Mathlib.Algebra.Group.Nat.Defs
import StackLink.Proofs.ObjectFile
import StackLink.Proofs.StatementFaults

/-!
# Object files of assembled modules

Each statement leaves a small piece of code, and the pieces are put into a balanced tree, whose depth grows with the
logarithm of their number. So an assembled module is never nested too deeply for its object file and has no payload
that would have to be split. It is read back as it was.
-/
namespace StackLink

namespace Code

theorem sequence_of_two_le {nodes : List Code} (h : 2 ≤ nodes.length) :
    sequence nodes =
      .seq (sequence (nodes.take (nodes.length / 2))) (sequence (nodes.drop (nodes.length / 2))) := by
  cases nodes with
  | nil => simp at h
  | cons first rest =>
    cases rest with
    | nil => simp at h
    | cons second rest => rw [sequence]

theorem depth_sequence_le {nodes : List Code} {k d : Nat} (hlength : nodes.length ≤ 2 ^ k)
    (hdepth : ∀ node ∈ nodes, node.depth ≤ d) : (sequence nodes).depth ≤ k + d := by
  induction k generalizing nodes with
  | zero =>
    cases nodes with
    | nil => simp [sequence, depth]
    | cons first rest =>
      cases rest with
      | nil => simpa [sequence] using hdepth
      | cons second rest => simp at hlength
  | succ k ih =>
    by_cases htwo : 2 ≤ nodes.length
    · rw [Nat.pow_succ] at hlength
      have hleft : (sequence (nodes.take (nodes.length / 2))).depth ≤ k + d := by
        apply ih
        · rw [List.length_take]
          omega
        · intro node hnode
          exact hdepth node (List.mem_of_mem_take hnode)
      have hright : (sequence (nodes.drop (nodes.length / 2))).depth ≤ k + d := by
        apply ih
        · rw [List.length_drop]
          omega
        · intro node hnode
          exact hdepth node (List.mem_of_mem_drop hnode)
      rw [sequence_of_two_le htwo, depth]
      omega
    · -- a single node is no deeper in a tree that has room for more
      have hone : nodes.length ≤ 2 ^ k := by
        have hpos := Nat.two_pow_pos k
        omega
      have hsequence := ih hone hdepth
      omega

theorem split_sequence {nodes : List Code} (h : ∀ node ∈ nodes, node.split = node) :
    (sequence nodes).split = sequence nodes := by
  induction nodes using sequence_induction with
  | nil =>
    rw [split]
    exact splitPayload_of_le (Nat.zero_le _)
  | singleton node => exact h node List.mem_cons_self
  | append left right hleft hright =>
    rw [List.forall_mem_append] at h
    rw [split, hleft h.1, hright h.2]

/-- A piece of code that an object file holds without splitting it, and with one level of nesting at most. -/
structure Compact (code : Code) : Prop where
  split : code.split = code
  depth : code.depth ≤ 1

theorem split_bytes {payload : Bytes} (h : payload.length ≤ ObjectFile.maxLength) :
    (bytes payload).split = .bytes payload :=
  splitPayload_of_le h

theorem compact_mark (name : SymbolName) : (mark name).Compact where
  split := by rw [mark, split, split_bytes (Nat.zero_le _)]
  depth := Nat.le_refl 1

end Code

theorem Instruction.size_le (i : Instruction) : i.size ≤ 9 := by
  rw [size, Opcode.size]
  cases i.opcode.shape <;> decide

theorem compact_assembleInstruction {mnemonic : Token} {operand : Option Token} {code : Code}
    (h : assembleInstruction mnemonic operand = .ok code) : code.Compact := by
  by_cases hcall : Statement.CallsName mnemonic operand
  · obtain ⟨text, name, rfl, rfl⟩ := hcall
    cases h
    exact ⟨by rw [Code.split, Code.split_bytes (by decide), Code.split], Nat.le_refl 1⟩
  · rw [Statement.assembleInstruction_of_not_callsName hcall] at h
    cases hencode : Instruction.encode mnemonic operand with
    | error e =>
      rw [hencode] at h
      cases h
    | ok i =>
      have hlength : i.toBytes.length ≤ ObjectFile.maxLength := by
        rw [(Instruction.wellFormed_of_encode hencode).length_toBytes]
        exact Nat.le_trans i.size_le (by decide)
      rw [hencode] at h
      cases h
      exact ⟨Code.split_bytes hlength, Nat.zero_le 1⟩

namespace Assembly

/-- No statement leaves more than one node, and it is compact. -/
structure Slim (state : Assembly) (count : Nat) : Prop where
  length : state.nodes.toList.length ≤ count
  compact : ∀ node ∈ state.nodes.toList, node.Compact

theorem nodes_step (state : Assembly) (statement : Statement) :
    (state.step statement).nodes = state.nodes ∨
      ∃ node : Code, node.Compact ∧ (state.step statement).nodes = state.nodes.push node := by
  cases statement with
  | label token =>
    obtain ⟨tag, name⟩ := token
    rw [step]
    split
    · exact .inl rfl
    · split
      · exact .inl rfl
      · exact .inr ⟨_, Code.compact_mark name, rfl⟩
  | instruction mnemonic operand =>
    rw [step]
    cases hcode : assembleInstruction mnemonic operand with
    | ok code => exact .inr ⟨code, compact_assembleInstruction hcode, rfl⟩
    | error e => exact .inl rfl

theorem Slim.step {state : Assembly} {count : Nat} (h : Slim state count) (statement : Statement) :
    Slim (state.step statement) (count + 1) := by
  rcases nodes_step state statement with hnodes | ⟨node, hnode, hnodes⟩
  · constructor
    · rw [hnodes]
      exact Nat.le_succ_of_le h.length
    · rw [hnodes]
      exact h.compact
  · constructor
    · simpa [hnodes] using h.length
    · simpa [hnodes, or_imp, forall_and, hnode] using h.compact

theorem slim_run (statements : List Statement) : Slim (run statements) statements.length := by
  induction statements using List.reverseRecOn with
  | nil => exact ⟨Nat.le_refl 0, by simp [run, start]⟩
  | append_singleton statements statement ih =>
    rw [run, List.foldl_append, List.length_append]
    exact ih.step statement

end Assembly

namespace ObjectFile

/-- An assembled module is written to an object file and read back unchanged, if its labels and the names that it
calls are words that are not too long. -/
theorem read_write_assemble {name : ModuleName} {statements : List Statement} {m : Module}
    (h : assemble name statements = .ok m) (hcount : statements.length < 2 ^ 64)
    (hnames : ∀ symbol ∈ statements.filterMap Statement.mention?,
      symbol.Plain ∧ (Bytes.ofText symbol).length ≤ 65535) :
    ∃ data, write m = .ok data ∧ read name data = .ok m := by
  obtain ⟨-, hcode⟩ := ofCode_of_assemble h
  have hslim := Assembly.slim_run statements
  have hmentions := (assembled_of_assemble h).mentions
  obtain ⟨-, hm⟩ := Module.ofCode_eq_ok_iff.mp hcode
  have htree : m.code = .sequence (Assembly.run statements).nodes.toList := Module.code_of_ofCode hcode
  have hsplit : m.code.split = m.code := by
    rw [htree]
    exact Code.split_sequence fun node hnode => (hslim.compact node hnode).split
  have hlength : (Assembly.run statements).nodes.toList.length ≤ 2 ^ 64 :=
    Nat.le_trans hslim.length (Nat.le_of_lt hcount)
  have hdepth : m.code.depth ≤ 64 + 1 := by
    rw [htree]
    exact Code.depth_sequence_le hlength fun node hnode => (hslim.compact node hnode).depth
  have hplain : ∀ symbol ∈ m.manifest, symbol.name.Plain := by
    intro symbol hsymbol
    have hmention := ((Module.mem_manifest_of_ofCode hcode).mp hsymbol).1
    rw [hmentions] at hmention
    exact (hnames symbol.name hmention).1
  rcases write_cases m with ⟨code, hwrite, hwritten, -⟩ | ⟨long, hlong, htooLong, -⟩
  · refine ⟨_, hwrite, read_eq_ok_iff.mpr ⟨by rw [hm], ?_, m.manifest.text, code, ?_⟩⟩
    · rw [maxDepth]
      omega
    · rw [hsplit] at hwritten
      exact ⟨sections_of_written hplain, Manifest.parse_text name hplain, hwritten⟩
  · rw [hmentions] at hlong
    have hshort := (hnames long hlong).2
    have hlength : maxLength < (Bytes.ofText long).length := of_decide_eq_true htooLong
    rw [maxLength] at hlength
    omega

/-- Names that look like marks of a manifest. -/
theorem read_write_assemble_marks :
    let statements : List Statement := [.instruction ⟨.call, "call"⟩ (some ⟨.ident, "U"⟩), .label ⟨.ident, "D"⟩,
      .instruction ⟨.ret, "ret"⟩ none, .label ⟨.ident, "DU"⟩]
    ∃ m data, assemble "m" statements = .ok m ∧
      m.manifest = [⟨"U", .undefined⟩, ⟨"D", .defined 3⟩, ⟨"DU", .defined 4⟩] ∧
      write m = .ok data ∧ read "m" data = .ok m := by
  intro statements
  obtain ⟨m, hm, hmanifest⟩ := exists_of_toOption_map (show (assemble "m" statements).toOption.map Module.manifest =
    some [⟨"U", .undefined⟩, ⟨"D", .defined 3⟩, ⟨"DU", .defined 4⟩] by decide +kernel)
  obtain ⟨data, hwrite, hread⟩ := read_write_assemble hm (by decide) (by decide)
  exact ⟨m, data, hm, hmanifest, hwrite, hread⟩

end ObjectFile
end StackLink
