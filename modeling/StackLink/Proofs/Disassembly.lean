import StackLink.Proofs.Instruction

/-!
# Every byte of an image is accounted for

Bytes decode to an instruction only if they start with the very bytes of that instruction. So the rows of a listing
spell the image out up to its end or to the place where no instruction starts, and no image can be read in two ways.
-/
namespace StackLink

theorem Opcode.number_of_ofNumber? {number : UInt8} {op : Opcode} (h : ofNumber? number = some op) :
    op.number = number := by
  obtain ⟨hlt, hop⟩ := List.getElem?_eq_some_iff.mp h
  have hall : ∀ k : Fin all.length, (all.get k).number.toNat = k := by decide
  apply UInt8.toNat_inj.mp
  rw [← hop]
  exact hall ⟨number.toNat, hlt⟩

theorem Opcode.eq_call_of_shape {op : Opcode} (h : op.shape = .call) : op = .call := by
  cases op with
  | call => rfl
  | _ => cases h

namespace Instruction

private theorem eq_singleton_of_length {operand : Bytes} (h : operand.length = 1) :
    operand = [UInt8.ofNat (Bytes.toWord operand)] := by
  obtain ⟨b, rfl⟩ := List.length_eq_one_iff.mp h
  rw [Bytes.ofNat_toWord_singleton]

private theorem ofWord_toWord_real {operand : Bytes} (h : operand.length = 8) :
    Bytes.ofWord 8 (UInt64.ofNat (Bytes.toWord operand)).toNat = operand := by
  have hlt : Bytes.toWord operand < Nat.pow 256 8 := h ▸ Bytes.toWord_lt operand
  rw [UInt64.toNat_ofNat', Nat.mod_eq_of_lt hlt, ← h, Bytes.ofWord_toWord]

theorem operandBytes_of_ofOperand {op : Opcode} {operand : Bytes} {i : Instruction}
    (hlength : operand.length + 1 = op.size) (h : ofOperand op operand = .ok i) :
    i.opcode = op ∧ i.WellFormed ∧ i.operandBytes = operand := by
  unfold ofOperand at h
  rw [Opcode.size] at hlength
  generalize hshape : op.shape = shape at h hlength
  cases shape with
  | nullary =>
    have hnil : operand = [] := List.length_eq_zero_iff.mp (Nat.succ.inj hlength)
    cases h
    exact ⟨rfl, hshape, hnil.symm⟩
  | arithmetic =>
    have hbyte : operand = [UInt8.ofNat (Bytes.toWord operand)] := eq_singleton_of_length (Nat.succ.inj hlength)
    simp only at h
    -- flags other than zero and one are refused, so that the mode gives the flag back
    split at h
    · next hzero =>
      cases h
      rw [hzero] at hbyte
      exact ⟨rfl, hshape, hbyte.symm⟩
    · split at h
      · next hone =>
        cases h
        rw [hone] at hbyte
        exact ⟨rfl, hshape, hbyte.symm⟩
      · cases h
  | trigonometric | register =>
    cases h
    exact ⟨rfl, hshape, (eq_singleton_of_length (Nat.succ.inj hlength)).symm⟩
  | memory =>
    cases h
    exact ⟨rfl, hshape, Bytes.ofOffset_toOffset (Nat.succ.inj hlength)⟩
  | real =>
    cases h
    exact ⟨rfl, hshape, ofWord_toWord_real (Nat.succ.inj hlength)⟩
  | call =>
    cases h
    exact ⟨(Opcode.eq_call_of_shape hshape).symm, rfl, Bytes.ofOffset_toOffset (Nat.succ.inj hlength)⟩

/-- Bytes decode to the one well-formed instruction whose bytes they start with. -/
theorem decode_eq_ok_iff {bytes : Bytes} {i : Instruction} :
    decode bytes = .ok i ↔ i.WellFormed ∧ i.toBytes <+: bytes := by
  constructor
  · intro h
    cases bytes with
    | nil => cases h
    | cons number rest =>
      rw [decode] at h
      split at h
      · cases h
      · next op hop =>
        simp only at h
        split at h
        · cases h
        · next hlength =>
          have hpos : 0 < op.size := (nullary op).size_pos
          have hle : (rest.take (op.size - 1)).length ≤ op.size - 1 := List.length_take_le _ _
          obtain ⟨hopcode, hwell, hoperand⟩ := operandBytes_of_ofOperand (by omega) h
          refine ⟨hwell, rest.drop (op.size - 1), ?_⟩
          rw [toBytes, hopcode, hoperand, Opcode.number_of_ofNumber? hop, List.cons_append, List.take_append_drop]
  · rintro ⟨hwell, rest, rfl⟩
    exact hwell.decode_toBytes_append rest

end Instruction

namespace Listing

def Row.bytes (row : Row) : Bytes :=
  row.instruction.toBytes

/-- The image is the bytes of these instructions, each with an operand that its operation takes. -/
structure Spells (instructions : List Instruction) (image : Bytes) : Prop where
  wellFormed : ∀ i ∈ instructions, i.WellFormed
  bytes : instructions.flatMap Instruction.toBytes = image

theorem flatMap_bytes_rowsFrom (offset : Nat) (instructions : List Instruction) :
    (rowsFrom offset instructions).flatMap Row.bytes = instructions.flatMap Instruction.toBytes := by
  induction instructions generalizing offset with
  | nil => rfl
  | cons i rest ih => rw [rowsFrom, List.flatMap_cons, List.flatMap_cons, ih, Row.bytes]

theorem map_instruction_rowsFrom (offset : Nat) (instructions : List Instruction) :
    (rowsFrom offset instructions).map Row.instruction = instructions := by
  induction instructions generalizing offset with
  | nil => rfl
  | cons i rest ih => rw [rowsFrom, List.map_cons, ih]

theorem offset_of_rowsFrom {instructions : List Instruction} (h : ∀ i ∈ instructions, i.WellFormed) {offset : Nat}
    {before after : List Row} {row : Row} (hrows : rowsFrom offset instructions = before ++ row :: after) :
    row.instruction.WellFormed ∧ row.offset = offset + (before.flatMap Row.bytes).length := by
  induction instructions generalizing offset before with
  | nil => simp [rowsFrom] at hrows
  | cons i rest ih =>
    have hi : i.WellFormed := h i List.mem_cons_self
    cases before with
    | nil =>
      cases hrows
      exact ⟨hi, rfl⟩
    | cons first before =>
      obtain ⟨rfl, hrest⟩ := List.cons.inj hrows
      obtain ⟨hwell, hoffset⟩ := ih (fun j hj => h j (List.mem_cons_of_mem _ hj)) hrest
      refine ⟨hwell, ?_⟩
      rw [hoffset, List.flatMap_cons, List.length_append, Row.bytes, hi.length_toBytes, Nat.add_assoc]

/-- A listing goes on through well-formed instructions until nothing is left or what is left does not decode. -/
theorem extend_cases (rows : Array Row) (offset : Nat) (image : Bytes) :
    ∃ instructions left, (∀ i ∈ instructions, i.WellFormed) ∧
      instructions.flatMap Instruction.toBytes ++ left = image ∧
      (extend rows offset image).rows = rows.toList ++ rowsFrom offset instructions ∧
      (left = [] ∧ (extend rows offset image).stop = none ∨
        left ≠ [] ∧ ∃ error, Instruction.decode left = .error error ∧
          (extend rows offset image).stop =
            some ⟨offset + (instructions.flatMap Instruction.toBytes).length, error⟩) := by
  fun_induction extend rows offset image with
  | case1 rows offset => exact ⟨[], [], by simp, rfl, by simp [rowsFrom], .inl ⟨rfl, rfl⟩⟩
  | case2 rows offset b rest error herror =>
    exact ⟨[], b :: rest, by simp, rfl, by simp [rowsFrom], .inr ⟨List.cons_ne_nil _ _, error, herror, by simp⟩⟩
  | case3 rows offset b rest i hdecode ih =>
    obtain ⟨hwell, tail, htail⟩ := Instruction.decode_eq_ok_iff.mp hdecode
    have hdrop : (b :: rest).drop i.size = tail := by
      rw [← htail, ← hwell.length_toBytes]
      exact List.drop_left
    rw [hdrop] at ih ⊢
    obtain ⟨instructions, left, hall, hbytes, hrows, hstop⟩ := ih
    refine ⟨i :: instructions, left, ?_, ?_, ?_, ?_⟩
    · exact List.forall_mem_cons.mpr ⟨hwell, hall⟩
    · rw [List.flatMap_cons, List.append_assoc, hbytes, htail]
    · rw [hrows, rowsFrom, Array.toList_push, List.append_assoc, List.singleton_append]
    · rw [List.flatMap_cons, List.length_append, hwell.length_toBytes, ← Nat.add_assoc]
      exact hstop

theorem ofImage_cases (image : Bytes) :
    ∃ instructions left, (∀ i ∈ instructions, i.WellFormed) ∧
      instructions.flatMap Instruction.toBytes ++ left = image ∧
      (ofImage image).rows = rowsFrom 0 instructions ∧
      (left = [] ∧ (ofImage image).stop = none ∨
        left ≠ [] ∧ ∃ error, Instruction.decode left = .error error ∧
          (ofImage image).stop = some ⟨(instructions.flatMap Instruction.toBytes).length, error⟩) := by
  simpa only [ofImage, List.nil_append, Nat.zero_add] using extend_cases #[] 0 image

theorem ofImage_of_spells {instructions : List Instruction} {image : Bytes} (h : Spells instructions image) :
    ofImage image = ⟨rowsFrom 0 instructions, none⟩ := by
  rw [← h.bytes]
  exact ofImage_flatMap_toBytes h.wellFormed

theorem Spells.unique {first second : List Instruction} {image : Bytes} (hfirst : Spells first image)
    (hsecond : Spells second image) : first = second := by
  have hlisting := (ofImage_of_spells hfirst).symm.trans (ofImage_of_spells hsecond)
  have hrows : rowsFrom 0 first = rowsFrom 0 second := congrArg Listing.rows hlisting
  rw [← map_instruction_rowsFrom 0 first, hrows, map_instruction_rowsFrom]

theorem length_rowsFrom_le {instructions : List Instruction} (offset : Nat) :
    (rowsFrom offset instructions).length ≤ (instructions.flatMap Instruction.toBytes).length := by
  induction instructions generalizing offset with
  | nil => exact Nat.le_refl 0
  | cons i rest ih =>
    have hrest := ih (offset + i.size)
    rw [rowsFrom, List.length_cons, List.flatMap_cons, List.length_append, Instruction.toBytes, List.length_cons]
    omega

/-- A listing ends after at most one row for each byte. Its rows spell the image out, each at the offset where its
bytes start, up to the end or to a place where decoding fails. It reaches the end of just those images that
well-formed instructions spell, and these instructions are unique. -/
theorem ofImage_accounts (image : Bytes) :
    (ofImage image).rows.length ≤ image.length ∧
    (∀ before row after, (ofImage image).rows = before ++ row :: after →
      row.instruction.WellFormed ∧ row.offset = (before.flatMap Row.bytes).length) ∧
    ((ofImage image).stop = none → (ofImage image).rows.flatMap Row.bytes = image) ∧
    (∀ stop, (ofImage image).stop = some stop →
      stop.offset < image.length ∧ (ofImage image).rows.flatMap Row.bytes = image.take stop.offset ∧
        Instruction.decode (image.drop stop.offset) = .error stop.error) ∧
    ((ofImage image).stop = none ↔ ∃ instructions, Spells instructions image) ∧
    ∀ first second, Spells first image → Spells second image → first = second := by
  obtain ⟨instructions, left, hwell, hbytes, hrows, hend⟩ := ofImage_cases image
  have hspelled : (ofImage image).rows.flatMap Row.bytes = instructions.flatMap Instruction.toBytes := by
    rw [hrows, flatMap_bytes_rowsFrom]
  have hreached (hnone : (ofImage image).stop = none) : instructions.flatMap Instruction.toBytes = image := by
    rcases hend with ⟨rfl, -⟩ | ⟨-, error, -, hstop⟩
    · rwa [List.append_nil] at hbytes
    · rw [hnone] at hstop
      cases hstop
  refine ⟨?_, ?_, ?_, ?_, ⟨?_, ?_⟩, fun _ _ => Spells.unique⟩
  · rw [hrows, ← hbytes, List.length_append]
    exact Nat.le_add_right_of_le (length_rowsFrom_le 0)
  · intro before row after hsplit
    simpa using offset_of_rowsFrom hwell (hrows.symm.trans hsplit)
  · intro hnone
    rw [hspelled, hreached hnone]
  · intro stop hstop
    rcases hend with ⟨-, hnone⟩ | ⟨hleft, error, herror, hsome⟩
    · rw [hnone] at hstop
      cases hstop
    · rw [hsome] at hstop
      cases hstop
      have hpos : 0 < left.length := List.length_pos_iff.mpr hleft
      rw [hspelled, ← hbytes, List.take_left, List.drop_left, List.length_append]
      exact ⟨Nat.lt_add_of_pos_right hpos, rfl, herror⟩
  · intro hnone
    exact ⟨instructions, hwell, hreached hnone⟩
  · rintro ⟨spelling, hspelling⟩
    rw [ofImage_of_spells hspelling]

end Listing
end StackLink
