import Mathlib.Data.List.TakeWhile
import StackLink.Proofs.Instruction
import StackLink.Proofs.Manifest

/-!
# What encoding yields

A mnemonic and its operand give an instruction that is read back from its bytes, or an error. Which operations take which
operand is said three times, by the mnemonics, by the shapes of the operations and by the layout of the bytes, and the three
agree. Conversely every instruction with an operand that its operation takes comes from some mnemonic and operand, as long
as its number, if it has one, can be written.
-/
namespace StackLink

namespace Text

theorem trim_of_isWord {text : String} (h : IsWord text.toList) : trim text = text := by
  have hstart : text.toList.dropWhile isBlank = text.toList :=
    List.dropWhile_eq_self_iff.mpr fun _ => h.2 _ (List.getElem_mem _)
  have hend : text.toList.reverse.dropWhile isBlank = text.toList.reverse :=
    List.dropWhile_eq_self_iff.mpr fun _ => h.2 _ (List.mem_reverse.mp (List.getElem_mem _))
  rw [trim, hstart, hend, List.reverse_reverse, String.ofList_toList]

end Text

section Operands

variable {α : Type} {read : String → Option α} {expected : String} {operand : Token}

theorem readOperand_of_some {value : α} (h : read (Text.trim operand.text) = some value) :
    readOperand read expected operand = .ok value := by
  simp only [readOperand, h]

theorem eq_badOperand_of_readOperand {e : EncodeError} (h : readOperand read expected operand = .error e) :
    e = .badOperand operand expected := by
  unfold readOperand at h
  split at h
  · cases h
  · cases h
    rfl

theorem readOperand_eq_ok_iff {value : α} :
    readOperand read expected operand = .ok value ↔ read (Text.trim operand.text) = some value := by
  refine ⟨?_, readOperand_of_some⟩
  intro h
  unfold readOperand at h
  split at h
  · next found hfound =>
    cases h
    exact hfound
  · cases h

end Operands

theorem readRegister_repr (r : UInt8) : readRegister ⟨.register, r.toNat.repr⟩ = .ok r := by
  apply readOperand_of_some
  have hdigits : r.toNat.repr.toList = Nat.toDigits 10 r.toNat := by
    rw [Nat.repr_eq_ofList_toDigits, String.toList_ofList]
  have hlt : r.toNat < 256 := r.toNat_lt
  have hword : Text.IsWord r.toNat.repr.toList := Numeral.isWord_repr r.toNat
  rw [Text.trim_of_isWord hword, Numeral.byte?, hdigits, Numeral.unsigned?_toDigits (by omega)]
  simp [hlt]

theorem readOffset_repr (offset : Int16) : readOffset ⟨.number, offset.toInt.repr⟩ = .ok offset := by
  apply readOperand_of_some
  rw [Text.trim_of_isWord (Numeral.isWord_repr _), Numeral.offset?, Numeral.signed?_repr (Offset.fits_toInt offset)]
  exact Offset.ofInt?_toInt offset

namespace Tag

/-- The tags that are not excluded are those for which an operation is known. -/
theorem isSome_form? (tag : Tag) : tag.form?.isSome = tag.isMnemonic := by
  cases tag <;> rfl

theorem form?_eq_none_iff {tag : Tag} : tag.form? = none ↔ tag.isMnemonic = false := by
  rw [← isSome_form?, Option.isSome_eq_false_iff, Option.isNone_iff_eq_none]

theorem form?_ne_complete_real (tag : Tag) (op : Opcode) (value : Binary64) :
    tag.form? ≠ some (.complete (.real op value)) := by
  cases tag <;> simp [form?]

end Tag

namespace Opcode

def tag (reversed : Bool) : Opcode → Tag
  | halt => .halt | ret => .ret | pop => .pop
  | pushRegister | pushMemory | pushReal => .push
  | loadRegister | loadMemory | loadReal => .fld
  | sum => if reversed then .sumR else .sum
  | sub => if reversed then .subR else .sub
  | mul => if reversed then .mulR else .mul
  | div => if reversed then .divR else .div
  | log => if reversed then .logR else .log
  | pow => if reversed then .powR else .pow
  | sin => .sin | cos => .cos | tan => .tan | ctan => .ctan
  | asin => .asin | acos => .acos | atan => .atan | actan => .actan
  | call => .call

variable {op : Opcode}

theorem form?_tag_nullary (h : op.shape = .nullary) : (op.tag false).form? = some (.complete (.nullary op)) := by
  cases op <;> cases h <;> rfl

theorem form?_tag_arithmetic (h : op.shape = .arithmetic) (reversed : Bool) :
    (op.tag reversed).form? = some (.complete (.arithmetic op reversed)) := by
  cases op <;> cases h <;> cases reversed <;> rfl

theorem form?_tag_trigonometric (h : op.shape = .trigonometric) : (op.tag false).form? = some (.trigonometric op) := by
  cases op <;> cases h <;> rfl

theorem form?_tag_register (h : op.shape = .register) :
    ∃ memory real, (op.tag false).form? = some (.transfer op memory real) := by
  cases op <;> cases h <;> exact ⟨_, _, rfl⟩

theorem form?_tag_memory (h : op.shape = .memory) :
    ∃ register real, (op.tag false).form? = some (.transfer register op real) := by
  cases op <;> cases h <;> exact ⟨_, _, rfl⟩

theorem form?_tag_real (h : op.shape = .real) :
    ∃ register memory, (op.tag false).form? = some (.transfer register memory op) := by
  cases op <;> cases h <;> exact ⟨_, _, rfl⟩

end Opcode

namespace Form

/-- An operand of a kind that suits the form is refused only for its text. -/
theorem eq_badOperand_of_error {form : Form} (hform : form.WellFormed) {operand : Token} {e : EncodeError}
    (h : form.fill? operand = some (.error e)) : ∃ expected, e = .badOperand operand expected := by
  rcases outcome_cases hform h with ⟨build, -, herror⟩ | ⟨build, -, herror⟩ | ⟨op, -, herror⟩
  · exact ⟨_, eq_badOperand_of_readOperand (map_eq_error_iff.mp herror.symm)⟩
  · exact ⟨_, eq_badOperand_of_readOperand (map_eq_error_iff.mp herror.symm)⟩
  · exact ⟨_, eq_badOperand_of_readOperand (map_eq_error_iff.mp herror.symm)⟩

theorem ofText?_of_real {form : Form} (hform : form.WellFormed) {operand : Token} {op : Opcode} {value : Binary64}
    (h : form.fill? operand = some (.ok (.real op value))) :
    Binary64.ofText? (Text.trim operand.text) = some value := by
  rcases outcome_cases hform h with ⟨build, hbuild, hok⟩ | ⟨build, hbuild, hok⟩ | ⟨found, -, hok⟩
  · obtain ⟨r, -, hr⟩ := map_eq_ok_iff.mp hok.symm
    exact absurd hr ((hbuild r).2 op value)
  · obtain ⟨offset, -, hoffset⟩ := map_eq_ok_iff.mp hok.symm
    exact absurd hoffset ((hbuild offset).2 op value)
  · obtain ⟨number, hnumber, hvalue⟩ := map_eq_ok_iff.mp hok.symm
    cases hvalue
    exact readOperand_eq_ok_iff.mp hnumber

end Form

namespace Instruction

theorem encode_eq_notAMnemonic_iff {mnemonic token : Token} {operand : Option Token} :
    encode mnemonic operand = .error (.notAMnemonic token) ↔ mnemonic.tag.isMnemonic = false ∧ token = mnemonic := by
  rw [← Tag.form?_eq_none_iff]
  unfold encode
  split
  · next hform => simp [hform, eq_comm]
  · next hform => simp [hform]
  · next hform => simp [hform]
  · next hform => simp [hform]
  · next form operand _ hform =>
    rw [hform]
    split
    · next result hresult =>
      refine iff_of_false ?_ (by simp)
      intro herror
      rw [herror] at hresult
      obtain ⟨expected, he⟩ := Form.eq_badOperand_of_error (Tag.wellFormed_of_form? hform) hresult
      cases he
    · simp

theorem exists_text_of_encode {mnemonic : Token} {operand : Option Token} {op : Opcode} {value : Binary64}
    (h : encode mnemonic operand = .ok (.real op value)) : ∃ text, Binary64.ofText? (Text.trim text) = some value := by
  unfold encode at h
  split at h
  · cases h
  · next hform =>
    cases h
    exact absurd hform (Tag.form?_ne_complete_real _ op value)
  · cases h
  · cases h
  · next form operand _ hform =>
    split at h
    · next result hresult =>
      rw [h] at hresult
      exact ⟨operand.text, Form.ofText?_of_real (Tag.wellFormed_of_form? hform) hresult⟩
    · cases h

theorem encode_of_complete {mnemonic : Token} {i : Instruction} (h : mnemonic.tag.form? = some (.complete i)) :
    encode mnemonic none = .ok i := by
  simp only [encode, h]

theorem encode_of_form {mnemonic operand : Token} {form : Form} {result : Except EncodeError Instruction}
    (hform : mnemonic.tag.form? = some form) (h : form.fill? operand = some result) :
    encode mnemonic (some operand) = result := by
  cases form with
  | complete instruction => cases h
  | trigonometric op => simp only [encode, hform, h]
  | transfer register memory real => simp only [encode, hform, h]
  | call => simp only [encode, hform, h]

/-- Each instruction with an operand that its operation takes comes from its mnemonic and the text of its operand. -/
theorem WellFormed.exists_encode {i : Instruction} (h : i.WellFormed)
    (hreal : ∀ op value, i = .real op value → ∃ text, Binary64.ofText? (Text.trim text) = some value) :
    ∃ mnemonic operand, encode mnemonic operand = .ok i := by
  cases i with
  | nullary op =>
    have hform := Opcode.form?_tag_nullary h
    exact ⟨⟨op.tag false, op.mnemonic⟩, none, encode_of_complete hform⟩
  | arithmetic op reversed =>
    have hform := Opcode.form?_tag_arithmetic h reversed
    exact ⟨⟨op.tag reversed, op.mnemonic⟩, none, encode_of_complete hform⟩
  | trigonometric op r =>
    have hform := Opcode.form?_tag_trigonometric h
    refine ⟨⟨op.tag false, op.mnemonic⟩, some ⟨.register, r.toNat.repr⟩, encode_of_form hform ?_⟩
    simp only [Form.fill?, readRegister_repr]
    rfl
  | register op r =>
    obtain ⟨memory, real, hform⟩ := Opcode.form?_tag_register h
    refine ⟨⟨op.tag false, op.mnemonic⟩, some ⟨.register, r.toNat.repr⟩, encode_of_form hform ?_⟩
    simp only [Form.fill?, readRegister_repr]
    rfl
  | memory op offset =>
    obtain ⟨register, real, hform⟩ := Opcode.form?_tag_memory h
    refine ⟨⟨op.tag false, op.mnemonic⟩, some ⟨.number, offset.toInt.repr⟩, encode_of_form hform ?_⟩
    simp only [Form.fill?, readOffset_repr]
    rfl
  | real op value =>
    obtain ⟨register, memory, hform⟩ := Opcode.form?_tag_real h
    obtain ⟨text, htext⟩ := hreal op value rfl
    have hread : readReal ⟨.real, text⟩ = .ok value := readOperand_of_some htext
    refine ⟨⟨op.tag false, op.mnemonic⟩, some ⟨.real, text⟩, encode_of_form hform ?_⟩
    simp only [Form.fill?, hread]
    rfl
  | call target =>
    have hform : Tag.form? .call = some .call := rfl
    refine ⟨⟨.call, Opcode.call.mnemonic⟩, some ⟨.number, target.toInt.repr⟩, encode_of_form hform ?_⟩
    simp only [Form.fill?, readOffset_repr]
    rfl

/-- Encoding yields only instructions whose operation takes the operand that they carry and that are read back from their
bytes, whatever follows, and it yields each of them whose number, if it has one, some text denotes. It finds no mnemonic
just where the tag is none, and each tag that is one has an operation. -/
theorem encode_decodable (mnemonic : Token) (operand : Option Token) :
    (∀ i, encode mnemonic operand = .ok i →
      i.opcode.shape = i.shape ∧ i.toBytes.length = i.size ∧ ∀ rest, decode (i.toBytes ++ rest) = .ok i) ∧
    (∀ token, encode mnemonic operand = .error (.notAMnemonic token) ↔
      mnemonic.tag.isMnemonic = false ∧ token = mnemonic) ∧
    mnemonic.tag.form?.isSome = mnemonic.tag.isMnemonic ∧
    ∀ i, (∃ mnemonic operand, encode mnemonic operand = .ok i) ↔ i.opcode.shape = i.shape ∧
      ∀ op value, i = .real op value → ∃ text, Binary64.ofText? (Text.trim text) = some value := by
  refine ⟨?_, fun token => encode_eq_notAMnemonic_iff, mnemonic.tag.isSome_form?, ?_⟩
  · intro i h
    have hwell := wellFormed_of_encode h
    exact ⟨hwell, hwell.length_toBytes, hwell.decode_toBytes_append⟩
  · intro i
    constructor
    · intro ⟨mnemonic, operand, h⟩
      refine ⟨wellFormed_of_encode h, ?_⟩
      intro op value hi
      exact exists_text_of_encode (hi ▸ h)
    · intro ⟨hwell, hreal⟩
      exact WellFormed.exists_encode hwell hreal

/-- A NaN keeps its sign through its bytes. -/
theorem encode_decodable_nan :
    encode ⟨.fld, "fld"⟩ (some ⟨.real, " -NaN\t"⟩) = .ok (.real .loadReal Binary64.nan.neg) ∧
    decode ((real .loadReal Binary64.nan.neg).toBytes ++ [0, 255]) = .ok (.real .loadReal Binary64.nan.neg) := by
  have hencode : encode ⟨.fld, "fld"⟩ (some ⟨.real, " -NaN\t"⟩) = .ok (.real .loadReal Binary64.nan.neg) := by rfl
  obtain ⟨hdecodable, -, -, -⟩ := encode_decodable ⟨.fld, "fld"⟩ (some ⟨.real, " -NaN\t"⟩)
  obtain ⟨-, -, hdecode⟩ := hdecodable _ hencode
  exact ⟨hencode, hdecode [0, 255]⟩

end Instruction

end StackLink
