import StackLink.Instruction.Encode
import StackLink.Listing
import StackLink.Proofs.Bytes
import StackLink.Proofs.Outcome

/-!
# Instructions and their bytes

An instruction whose operation takes the operand that it carries is read back from its bytes, whatever follows
them. Encoding gives such instructions only, and so a listing of their bytes has one row for each.
-/
namespace StackLink

namespace Instruction

/-- The operation takes an operand of the shape that the instruction carries. -/
def WellFormed (i : Instruction) : Prop :=
  i.opcode.shape = i.shape

instance (i : Instruction) : Decidable i.WellFormed :=
  inferInstanceAs (Decidable (_ = _))

theorem length_operandBytes (i : Instruction) : i.operandBytes.length + 1 = i.shape.size := by
  cases i <;> simp [operandBytes, shape, Shape.size]

theorem WellFormed.length_toBytes {i : Instruction} (h : i.WellFormed) : i.toBytes.length = i.size := by
  rw [size, Opcode.size, h, ← length_operandBytes]
  rfl

theorem WellFormed.ofOperand_operandBytes {i : Instruction} (h : i.WellFormed) :
    ofOperand i.opcode i.operandBytes = .ok i := by
  unfold ofOperand
  rw [h]
  cases i with
  | nullary op => rfl
  | arithmetic op reversed => cases reversed <;> rfl
  | trigonometric op r => simp only [shape, operandBytes, Bytes.ofNat_toWord_singleton, opcode]
  | register op r => simp only [shape, operandBytes, Bytes.ofNat_toWord_singleton, opcode]
  | memory op offset => simp only [shape, operandBytes, Bytes.toOffset_ofOffset, opcode]
  | real op value =>
    simp only [shape, operandBytes, opcode]
    rw [Bytes.toWord_ofWord, Nat.mod_eq_of_lt value.bits.toNat_lt, UInt64.ofNat_toNat]
  | call target => simp only [shape, operandBytes, Bytes.toOffset_ofOffset]

theorem WellFormed.decode_toBytes_append {i : Instruction} (h : i.WellFormed) (rest : Bytes) :
    decode (i.toBytes ++ rest) = .ok i := by
  have hneeded : i.opcode.size - 1 = i.operandBytes.length := by
    rw [Opcode.size, h, ← length_operandBytes, Nat.add_sub_cancel]
  have htake : (i.operandBytes ++ rest).take i.operandBytes.length = i.operandBytes := List.take_left
  change decode (i.opcode.number :: (i.operandBytes ++ rest)) = _
  simp only [decode, Opcode.ofNumber?_number, hneeded, htake, Nat.lt_irrefl, if_false]
  exact h.ofOperand_operandBytes

end Instruction

/-- Whatever operand the form is given, its operation takes it. -/
def Form.WellFormed : Form → Prop
  | complete instruction => instruction.WellFormed
  | trigonometric op => op.shape = .trigonometric
  | transfer register memory real => register.shape = .register ∧ memory.shape = .memory ∧ real.shape = .real
  | call => True

theorem Tag.wellFormed_of_form? {tag : Tag} {form : Form} (h : tag.form? = some form) : form.WellFormed := by
  cases tag <;> cases h <;> simp [Form.WellFormed, Instruction.WellFormed, Instruction.opcode, Instruction.shape,
    Opcode.shape]

/-- What a form makes of an operand: the text is read as a register, an offset or a number, and goes into an instruction
whose operation takes it. Only a number gives an instruction with a number. -/
theorem Form.outcome_cases {form : Form} (hform : form.WellFormed) {operand : Token}
    {result : Except EncodeError Instruction} (h : form.fill? operand = some result) :
    (∃ build, (∀ r, (build r).WellFormed ∧ ∀ op value, build r ≠ .real op value) ∧
        result = (readRegister operand).map build) ∨
      (∃ build, (∀ offset, (build offset).WellFormed ∧ ∀ op value, build offset ≠ .real op value) ∧
        result = (readOffset operand).map build) ∨
      ∃ op, op.shape = .real ∧ result = (readReal operand).map (.real op) := by
  cases form with
  | complete instruction => cases h
  | trigonometric op =>
    rw [Form.fill?] at h
    split at h
    · exact .inl ⟨.trigonometric op, fun r => ⟨hform, by simp⟩, (Option.some.inj h).symm⟩
    · cases h
  | transfer register memory real =>
    obtain ⟨hregister, hmemory, hreal⟩ := hform
    rw [Form.fill?] at h
    split at h
    · exact .inl ⟨.register register, fun r => ⟨hregister, by simp⟩, (Option.some.inj h).symm⟩
    · exact .inr (.inl ⟨.memory memory, fun offset => ⟨hmemory, by simp⟩, (Option.some.inj h).symm⟩)
    · exact .inr (.inr ⟨real, hreal, (Option.some.inj h).symm⟩)
    · cases h
  | call =>
    rw [Form.fill?] at h
    split at h
    · exact .inr (.inl ⟨.call, fun offset => ⟨rfl, by simp⟩, (Option.some.inj h).symm⟩)
    · cases h

theorem Form.WellFormed.instruction {form : Form} (hform : form.WellFormed) {operand : Token} {i : Instruction}
    (h : form.fill? operand = some (.ok i)) : i.WellFormed := by
  rcases Form.outcome_cases hform h with ⟨build, hbuild, hok⟩ | ⟨build, hbuild, hok⟩ | ⟨op, hop, hok⟩
  · obtain ⟨r, -, rfl⟩ := map_eq_ok_iff.mp hok.symm
    exact (hbuild r).1
  · obtain ⟨offset, -, rfl⟩ := map_eq_ok_iff.mp hok.symm
    exact (hbuild offset).1
  · obtain ⟨value, -, rfl⟩ := map_eq_ok_iff.mp hok.symm
    exact hop

namespace Instruction

theorem wellFormed_of_encode {mnemonic : Token} {operand : Option Token} {i : Instruction}
    (h : encode mnemonic operand = .ok i) : i.WellFormed := by
  unfold encode at h
  split at h
  · cases h
  · rename_i instruction hform
    cases h
    exact Tag.wellFormed_of_form? hform
  · cases h
  · cases h
  · rename_i form operand _ hform
    split at h
    · rename_i result hresult
      subst h
      exact (Tag.wellFormed_of_form? hform).instruction hresult
    · cases h

end Instruction

namespace Listing

def rowsFrom (offset : Nat) : List Instruction → List Row
  | [] => []
  | i :: rest => ⟨offset, i⟩ :: rowsFrom (offset + i.size) rest

theorem extend_flatMap_toBytes {instructions : List Instruction} (h : ∀ i ∈ instructions, i.WellFormed)
    (rows : Array Row) (offset : Nat) :
    extend rows offset (instructions.flatMap Instruction.toBytes) =
      ⟨rows.toList ++ rowsFrom offset instructions, none⟩ := by
  induction instructions generalizing rows offset with
  | nil =>
    rw [List.flatMap_nil, extend, rowsFrom, List.append_nil]
  | cons i rest ih =>
    have hi : i.WellFormed := h i List.mem_cons_self
    have hdecode := hi.decode_toBytes_append (rest.flatMap Instruction.toBytes)
    have hdrop : (i.toBytes ++ rest.flatMap Instruction.toBytes).drop i.size = rest.flatMap Instruction.toBytes := by
      rw [← hi.length_toBytes]
      exact List.drop_left
    have hbytes : i.toBytes ++ rest.flatMap Instruction.toBytes =
        i.opcode.number :: (i.operandBytes ++ rest.flatMap Instruction.toBytes) := rfl
    rw [List.flatMap_cons, hbytes, extend, ← hbytes, hdecode]
    simp only [hdrop]
    rw [ih fun j hj => h j (List.mem_cons_of_mem _ hj)]
    simp [rowsFrom]

theorem ofImage_flatMap_toBytes {instructions : List Instruction} (h : ∀ i ∈ instructions, i.WellFormed) :
    ofImage (instructions.flatMap Instruction.toBytes) = ⟨rowsFrom 0 instructions, none⟩ :=
  extend_flatMap_toBytes h #[] 0

end Listing
end StackLink
