import Mathlib.Data.List.Infix
import StackLink.ObjectFile.Read
import StackLink.ObjectFile.Write
import StackLink.Proofs.Bytes
import StackLink.Proofs.Outcome

/-!
# Code sections

The format of a code section is a relation between code and bytes. The writer puts out the bytes of code whose
long payloads are split. The reader takes exactly the bytes of some code, as far as it is not nested too deeply.
-/
namespace StackLink

namespace Code

def depth : Code → Nat
  | bytes _ | ref _ => 0
  | label _ inner => inner.depth + 1
  | seq first second | deferred first second => max first.depth second.depth + 1

def splitPayload (payload : Bytes) : Code :=
  if _h : ObjectFile.maxLength < payload.length then
    .seq (.bytes (payload.take ObjectFile.maxLength)) (splitPayload (payload.drop ObjectFile.maxLength))
  else .bytes payload
termination_by payload.length
decreasing_by
  simp only [List.length_drop, ObjectFile.maxLength] at *
  omega

theorem splitPayload_of_le {payload : Bytes} (h : payload.length ≤ ObjectFile.maxLength) :
    splitPayload payload = .bytes payload := by
  rw [splitPayload, dif_neg (Nat.not_lt_of_le h)]

theorem splitPayload_of_lt {payload : Bytes} (h : ObjectFile.maxLength < payload.length) :
    splitPayload payload =
      .seq (.bytes (payload.take ObjectFile.maxLength)) (splitPayload (payload.drop ObjectFile.maxLength)) := by
  rw [splitPayload, dif_pos h]

/-- The code with each payload split that is too long for one node. -/
def split : Code → Code
  | bytes payload => splitPayload payload
  | ref name => .ref name
  | label name inner => .label name inner.split
  | seq first second => .seq first.split second.split
  | deferred first second => .deferred first.split second.split

end Code

namespace ObjectFile

def tooLong (name : SymbolName) : Bool :=
  decide (maxLength < (Bytes.ofText name).length)

inductive Written : Code → Bytes → Prop where
  | bytes {payload : Bytes} (h : payload.length ≤ maxLength) : Written (.bytes payload) (tagBytes :: counted payload)
  | ref {name : SymbolName} (h : tooLong name = false) : Written (.ref name) (tagRef :: counted (Bytes.ofText name))
  | label {name : SymbolName} {inner : Code} {data : Bytes} (h : tooLong name = false) (hinner : Written inner data) :
    Written (.label name inner) (tagLabel :: counted (Bytes.ofText name) ++ data)
  | seq {first second : Code} {left right : Bytes} (hfirst : Written first left) (hsecond : Written second right) :
    Written (.seq first second) (tagSeq :: left ++ right)
  | deferred {first second : Code} {left right : Bytes} (hfirst : Written first left) (hsecond : Written second right) :
    Written (.deferred first second) (tagDeferred :: left ++ right)

theorem written_splitPayload (payload : Bytes) : Written (Code.splitPayload payload) (writePayload payload) := by
  induction payload using writePayload.induct with
  | case1 payload h ih =>
    have hpart : (payload.take maxLength).length ≤ maxLength := List.length_take_le _ _
    rw [Code.splitPayload_of_lt h, writePayload, dif_pos h]
    exact .seq (.bytes hpart) ih
  | case2 payload h =>
    rw [Code.splitPayload_of_le (Nat.le_of_not_lt h), writePayload, dif_neg h]
    exact .bytes (Nat.le_of_not_lt h)

theorem writeName_eq (name : SymbolName) :
    writeName name = if tooLong name then .error (.nameTooLong name) else .ok (counted (Bytes.ofText name)) := by
  simp [writeName, tooLong]

/-- What writing may give: the bytes of the code, or the first name that is too long. -/
inductive WriteOutcome (names : List SymbolName) (code : Code) : Except ObjectFileError Bytes → Prop where
  | written {data : Bytes} (h : Written code data) (hnone : names.find? tooLong = none) :
    WriteOutcome names code (.ok data)
  | refused {name : SymbolName} (h : names.find? tooLong = some name) :
    WriteOutcome names code (.error (.nameTooLong name))

private theorem WriteOutcome.pair {names names' : List SymbolName} {first second whole : Code}
    {left right : Except ObjectFileError Bytes} (hleft : WriteOutcome names first left)
    (hright : WriteOutcome names' second right) {tag : UInt8}
    (hwhole : ∀ data data', Written first data → Written second data' → Written whole (tag :: data ++ data')) :
    WriteOutcome (names ++ names') whole (do
      let data ← left
      let data' ← right
      .ok (tag :: data ++ data')) := by
  cases hleft with
  | refused hsome =>
    rw [error_bind]
    apply refused
    rw [List.find?_append, hsome, Option.some_or]
  | written hfirst hnone =>
    rw [ok_bind]
    cases hright with
    | refused hsome =>
      rw [error_bind]
      apply refused
      rw [List.find?_append, hnone, hsome, Option.none_or]
    | written hsecond hnone' =>
      rw [ok_bind]
      apply written (hwhole _ _ hfirst hsecond)
      rw [List.find?_append, hnone, hnone', Option.none_or]

theorem writeCode_outcome (code : Code) : WriteOutcome code.mentions code.split (writeCode code) := by
  induction code with
  | bytes payload => exact .written (written_splitPayload payload) rfl
  | ref name =>
    rw [writeCode, writeName_eq, Code.mentions, Code.split]
    cases h : tooLong name with
    | false => exact .written (.ref h) (by simp [h])
    | true => exact .refused (by simp [h])
  | label name inner ih =>
    rw [writeCode, writeName_eq, Code.mentions, Code.split]
    cases h : tooLong name with
    | true => exact .refused (by simp [h])
    | false =>
      rw [if_neg Bool.false_ne_true, ok_bind]
      generalize writeCode inner = outcome at ih ⊢
      cases ih with
      | refused hsome => exact .refused (by simp [h, hsome])
      | written hinner hnone => exact .written (.label h hinner) (by simp [h, hnone])
  | seq first second ihf ihs => exact ihf.pair ihs fun _ _ => .seq
  | deferred first second ihf ihs => exact ihf.pair ihs fun _ _ => .deferred

theorem writeCode_of_written {code : Code} {data : Bytes} (h : Written code data) : writeCode code = .ok data := by
  induction h with
  | bytes h => rw [writeCode, writePayload, dif_neg (Nat.not_lt_of_le h)]
  | ref h => simp [writeCode, writeName_eq, h, ok_bind]
  | label h _ ih => simp [writeCode, writeName_eq, h, ih, ok_bind]
  | seq _ _ ihf ihs | deferred _ _ ihf ihs => simp [writeCode, ihf, ihs, ok_bind]

/-- Something that takes a value from the front of what is left of a file. -/
abbrev Reader (α : Type) : Type :=
  Cursor → Except ObjectFileError (α × Cursor)

namespace Reader

def done {α : Type} (value : α) : Reader α :=
  fun cursor => .ok (value, cursor)

def andThen {α β : Type} (first : Reader α) (second : α → Reader β) : Reader β :=
  fun cursor => first cursor >>= fun result => second result.1 result.2

end Reader

/-- The reader takes exactly these bytes for the value, whatever follows them, and finds any part of them cut
short. -/
structure Takes {α : Type} (reader : Reader α) (value : α) (data : Bytes) : Prop where
  whole (position : Nat) (rest : Bytes) :
    reader ⟨position, data ++ rest⟩ = .ok (value, ⟨position + data.length, rest⟩)
  cut (position : Nat) {part : Bytes} (h : part <+: data) (hne : part ≠ data) :
    reader ⟨position, part⟩ = .error (.truncated (position + part.length))

namespace Takes

variable {α β : Type} {first : Reader α} {second : α → Reader β} {a : α} {b : β} {left right : Bytes}

theorem done (value : α) : Takes (Reader.done value) value [] where
  whole _ _ := rfl
  cut _ _ h hne := absurd (List.prefix_nil.mp h) hne

theorem andThen (hfirst : Takes first a left) (hsecond : Takes (second a) b right) :
    Takes (first.andThen second) b (left ++ right) where
  whole position rest := by
    rw [Reader.andThen, List.append_assoc, hfirst.whole, ok_bind, hsecond.whole, List.length_append, Nat.add_assoc]
  cut position part h hne := by
    -- The cut is either inside the first value's bytes or after all of them.
    by_cases hcut : part <+: left ∧ part ≠ left
    · rw [Reader.andThen, hfirst.cut position hcut.1 hcut.2, error_bind]
    · have hleft : left <+: part := by
        rcases List.prefix_or_prefix_of_prefix h (List.prefix_append left right) with hpart | hleft
        · have heq : part = left := by
            by_contra hne
            exact hcut ⟨hpart, hne⟩
          rw [heq]
        · exact hleft
      obtain ⟨more, rfl⟩ := hleft
      have hmore : more <+: right := (List.prefix_append_right_inj left).mp h
      have hne' : more ≠ right := fun heq => hne (by rw [heq])
      rw [Reader.andThen, hfirst.whole, ok_bind, hsecond.cut _ hmore hne', List.length_append, Nat.add_assoc]

theorem andThen_done {data : Bytes} (hfirst : Takes first a data) (result : α → β) :
    Takes (first.andThen fun value => .done (result value)) (result a) data := by
  have hboth : Takes (first.andThen fun value => .done (result value)) (result a) (data ++ []) :=
    hfirst.andThen (done (result a))
  rwa [List.append_nil] at hboth

theorem take (data : Bytes) : Takes (Cursor.take · data.length) data data where
  whole position rest := by simp [Cursor.take]
  cut position part h hne := by
    have hneq : part.length ≠ data.length := fun heq => hne (h.eq_of_length heq)
    have hlt : part.length < data.length := Nat.lt_of_le_of_ne h.length_le hneq
    simp only [Cursor.take, List.length_take]
    rw [if_pos (by omega)]

theorem readCounted {content : Bytes} (h : content.length ≤ maxLength) :
    Takes readCounted content (counted content) := by
  have hlength : (Bytes.ofWord 2 content.length).length = 2 := Bytes.length_ofWord _ _
  have hword : Bytes.toWord (Bytes.ofWord 2 content.length) = content.length := by
    rw [Bytes.toWord_ofWord]
    apply Nat.mod_eq_of_lt
    exact Nat.lt_of_le_of_lt h (by decide)
  have hfirst := take (Bytes.ofWord 2 content.length)
  have hsecond := take content
  rw [hlength] at hfirst
  rw [← hword] at hsecond
  have hboth : Takes (Reader.andThen (Cursor.take · 2) fun length => (Cursor.take · (Bytes.toWord length))) content
      (Bytes.ofWord 2 content.length ++ content) := hfirst.andThen hsecond
  exact hboth

theorem readName {name : SymbolName} (h : tooLong name = false) :
    Takes readName name (counted (Bytes.ofText name)) := by
  have hcounted : Takes ObjectFile.readCounted _ _ := readCounted (Nat.le_of_not_lt (of_decide_eq_false h))
  constructor
  · intro position rest
    simp only [ObjectFile.readName, hcounted.whole, ok_bind, Bytes.toText?_ofText]
  · intro position part hpart hne
    simp only [ObjectFile.readName, hcounted.cut position hpart hne, error_bind]

theorem tagged {reader body : Reader Code} {tag : UInt8} {code : Code} {data : Bytes}
    (htag : ∀ position rest, reader ⟨position, tag :: rest⟩ = body ⟨position + 1, rest⟩)
    (hnil : ∀ position, reader ⟨position, []⟩ = .error (.truncated position)) (hbody : Takes body code data) :
    Takes reader code (tag :: data) where
  whole position rest := by
    rw [List.cons_append, htag, hbody.whole, List.length_cons, Nat.add_assoc, Nat.add_comm 1]
  cut position part h hne := by
    cases part with
    | nil => exact hnil position
    | cons b more =>
      obtain ⟨rfl, hmore⟩ := List.cons_prefix_cons.mp h
      have hne' : more ≠ data := fun heq => hne (by rw [heq])
      rw [htag, hbody.cut _ hmore hne', List.length_cons, Nat.add_assoc, Nat.add_comm 1]

end Takes

theorem tag_cases (tag : UInt8) :
    tag = tagBytes ∨ tag = tagRef ∨ tag = tagLabel ∨ tag = tagSeq ∨ tag = tagDeferred ∨
      tag ≠ tagBytes ∧ tag ≠ tagRef ∧ tag ≠ tagLabel ∧ tag ≠ tagSeq ∧ tag ≠ tagDeferred := by
  tauto

section Node

variable (levels position : Nat) (rest : Bytes)

theorem take_one (tag : UInt8) : Cursor.take ⟨position, tag :: rest⟩ 1 = .ok ([tag], ⟨position + 1, rest⟩) := by
  simp [Cursor.take]

theorem readCode_nil : readCode (levels + 1) ⟨position, []⟩ = .error (.truncated position) := by
  simp [readCode, Cursor.take, error_bind]

theorem readCode_bytes : readCode (levels + 1) ⟨position, tagBytes :: rest⟩ =
    Reader.andThen readCounted (fun payload => .done (.bytes payload)) ⟨position + 1, rest⟩ := by
  simp only [readCode, take_one, ok_bind]
  rfl

theorem readCode_ref : readCode (levels + 1) ⟨position, tagRef :: rest⟩ =
    Reader.andThen readName (fun name => .done (.ref name)) ⟨position + 1, rest⟩ := by
  simp only [readCode, take_one, ok_bind]
  rfl

theorem readCode_label : readCode (levels + 1) ⟨position, tagLabel :: rest⟩ =
    Reader.andThen readName (fun name => Reader.andThen (readCode levels) fun inner => .done (.label name inner))
      ⟨position + 1, rest⟩ := by
  simp only [readCode, take_one, ok_bind]
  rfl

theorem readCode_seq : readCode (levels + 1) ⟨position, tagSeq :: rest⟩ =
    Reader.andThen (readCode levels) (fun first => Reader.andThen (readCode levels) fun second =>
      .done (.seq first second)) ⟨position + 1, rest⟩ := by
  simp only [readCode, take_one, ok_bind]
  rfl

theorem readCode_deferred : readCode (levels + 1) ⟨position, tagDeferred :: rest⟩ =
    Reader.andThen (readCode levels) (fun first => Reader.andThen (readCode levels) fun second =>
      .done (.deferred first second)) ⟨position + 1, rest⟩ := by
  simp only [readCode, take_one, ok_bind]
  rfl

theorem readCode_unknown {tag : UInt8}
    (h : tag ≠ tagBytes ∧ tag ≠ tagRef ∧ tag ≠ tagLabel ∧ tag ≠ tagSeq ∧ tag ≠ tagDeferred) :
    readCode (levels + 1) ⟨position, tag :: rest⟩ = .error (.unknownTag position tag) := by
  obtain ⟨hbytes, href, hlabel, hseq, hdeferred⟩ := h
  have htag : UInt8.ofNat (Bytes.toWord [tag]) = tag := Bytes.ofNat_toWord_singleton tag
  simp only [readCode, take_one, ok_bind, htag]
  rw [if_neg hbytes, if_neg href, if_neg hlabel, if_neg hseq, if_neg hdeferred]

end Node

theorem takes_readCode {code : Code} {data : Bytes} (h : Written code data) {levels : Nat}
    (hdepth : code.depth < levels) : Takes (readCode levels) code data := by
  induction h generalizing levels with
  | bytes h =>
    obtain ⟨below, rfl⟩ := Nat.exists_eq_succ_of_ne_zero (Nat.ne_zero_of_lt hdepth)
    apply Takes.tagged (readCode_bytes below) (readCode_nil below)
    exact (Takes.readCounted h).andThen_done Code.bytes
  | ref h =>
    obtain ⟨below, rfl⟩ := Nat.exists_eq_succ_of_ne_zero (Nat.ne_zero_of_lt hdepth)
    apply Takes.tagged (readCode_ref below) (readCode_nil below)
    exact (Takes.readName h).andThen_done Code.ref
  | label h _ ih =>
    obtain ⟨below, rfl⟩ := Nat.exists_eq_succ_of_ne_zero (Nat.ne_zero_of_lt hdepth)
    apply Takes.tagged (readCode_label below) (readCode_nil below)
    have hinner := ih (Nat.lt_of_succ_lt_succ hdepth)
    exact (Takes.readName h).andThen (hinner.andThen_done _)
  | seq _ _ ihf ihs =>
    obtain ⟨below, rfl⟩ := Nat.exists_eq_succ_of_ne_zero (Nat.ne_zero_of_lt hdepth)
    obtain ⟨hf, hs⟩ := Nat.max_lt.mp (Nat.lt_of_succ_lt_succ hdepth)
    apply Takes.tagged (readCode_seq below) (readCode_nil below)
    exact (ihf hf).andThen ((ihs hs).andThen_done _)
  | deferred _ _ ihf ihs =>
    obtain ⟨below, rfl⟩ := Nat.exists_eq_succ_of_ne_zero (Nat.ne_zero_of_lt hdepth)
    obtain ⟨hf, hs⟩ := Nat.max_lt.mp (Nat.lt_of_succ_lt_succ hdepth)
    apply Takes.tagged (readCode_deferred below) (readCode_nil below)
    exact (ihf hf).andThen ((ihs hs).andThen_done _)

/-- The reader stops at the first node that is nested too deeply, which is in the first part or in the second. -/
private theorem andThen_tooDeep {first second : Code} {left right : Bytes} (hfirst : Written first left)
    {levels : Nat} (result : Code → Code → Code) (hdepth : levels ≤ max first.depth second.depth)
    (ihf : levels ≤ first.depth → ∀ position rest,
      ∃ deep, readCode levels ⟨position, left ++ rest⟩ = .error (.tooDeep deep))
    (ihs : levels ≤ second.depth → ∀ position rest,
      ∃ deep, readCode levels ⟨position, right ++ rest⟩ = .error (.tooDeep deep))
    (position : Nat) (rest : Bytes) :
    ∃ deep, Reader.andThen (readCode levels) (fun first => Reader.andThen (readCode levels) fun second =>
      .done (result first second)) ⟨position, left ++ (right ++ rest)⟩ = .error (.tooDeep deep) := by
  simp only [Reader.andThen]
  by_cases hf : levels ≤ first.depth
  · obtain ⟨deep, hdeep⟩ := ihf hf position (right ++ rest)
    exact ⟨deep, by rw [hdeep, error_bind]⟩
  · have hs : levels ≤ second.depth := by omega
    have htakes := takes_readCode hfirst (Nat.lt_of_not_le hf)
    obtain ⟨deep, hdeep⟩ := ihs hs (position + left.length) rest
    exact ⟨deep, by rw [htakes.whole, ok_bind, hdeep, error_bind]⟩

/-- Code that nests more levels is reported as too deep, whatever follows it. -/
theorem readCode_tooDeep {code : Code} {data : Bytes} (h : Written code data) {levels : Nat}
    (hdepth : levels ≤ code.depth) (position : Nat) (rest : Bytes) :
    ∃ deep, readCode levels ⟨position, data ++ rest⟩ = .error (.tooDeep deep) := by
  induction h generalizing levels position rest with
  | bytes _ | ref _ =>
    obtain rfl : levels = 0 := Nat.le_zero.mp hdepth
    exact ⟨position, rfl⟩
  | label h _ ih =>
    cases levels with
    | zero => exact ⟨position, rfl⟩
    | succ below =>
      rw [List.cons_append, List.cons_append, List.append_assoc, readCode_label, Reader.andThen,
        (Takes.readName h).whole, ok_bind]
      obtain ⟨deep, hdeep⟩ := ih (Nat.le_of_succ_le_succ hdepth) _ rest
      exact ⟨deep, by rw [Reader.andThen, hdeep, error_bind]⟩
  | seq hfirst _ ihf ihs =>
    cases levels with
    | zero => exact ⟨position, rfl⟩
    | succ below =>
      rw [List.cons_append, List.cons_append, List.append_assoc, readCode_seq]
      exact andThen_tooDeep hfirst .seq (Nat.le_of_succ_le_succ hdepth) ihf ihs _ rest
  | deferred hfirst _ ihf ihs =>
    cases levels with
    | zero => exact ⟨position, rfl⟩
    | succ below =>
      rw [List.cons_append, List.cons_append, List.append_assoc, readCode_deferred]
      exact andThen_tooDeep hfirst .deferred (Nat.le_of_succ_le_succ hdepth) ihf ihs _ rest

theorem andThen_eq_ok_iff {α β : Type} {first : Reader α} {second : α → Reader β} {cursor last : Cursor} {b : β} :
    first.andThen second cursor = .ok (b, last) ↔
      ∃ a next, first cursor = .ok (a, next) ∧ second a next = .ok (b, last) := by
  rw [Reader.andThen, bind_eq_ok_iff, Prod.exists]

theorem rest_of_take {cursor next : Cursor} {count : Nat} {chunk : Bytes} (h : cursor.take count = .ok (chunk, next)) :
    cursor.rest = chunk ++ next.rest ∧ chunk.length = count := by
  rw [Cursor.take] at h
  split at h
  · cases h
  · next hlength =>
    cases h
    refine ⟨(List.take_append_drop count cursor.rest).symm, ?_⟩
    have hle := List.length_take_le count cursor.rest
    omega

theorem rest_of_readCounted {cursor next : Cursor} {content : Bytes} (h : readCounted cursor = .ok (content, next)) :
    cursor.rest = counted content ++ next.rest ∧ content.length ≤ maxLength := by
  obtain ⟨⟨length, middle⟩, hlength, hcontent⟩ := bind_eq_ok_iff.mp h
  obtain ⟨hrest, htwo⟩ := rest_of_take hlength
  obtain ⟨hrest', hcount⟩ := rest_of_take hcontent
  have hword : Bytes.ofWord 2 content.length = length := by
    rw [hcount, ← htwo]
    exact Bytes.ofWord_toWord length
  have hbound : Bytes.toWord length < 65536 := by
    have hlt := Bytes.toWord_lt length
    rw [htwo] at hlt
    exact hlt
  refine ⟨?_, ?_⟩
  · rw [counted, hword, hrest, hrest', List.append_assoc]
  · rw [hcount]
    exact Nat.le_of_lt_succ hbound

theorem rest_of_readName {cursor next : Cursor} {name : SymbolName} (h : readName cursor = .ok (name, next)) :
    cursor.rest = counted (Bytes.ofText name) ++ next.rest ∧ tooLong name = false := by
  obtain ⟨⟨content, middle⟩, hcounted, htext⟩ := bind_eq_ok_iff.mp h
  obtain ⟨hrest, hlength⟩ := rest_of_readCounted hcounted
  cases hname : Bytes.toText? content with
  | none => simp [hname] at htext
  | some text =>
    simp only [hname, Except.ok.injEq, Prod.mk.injEq] at htext
    obtain ⟨rfl, rfl⟩ := htext
    have hcontent : Bytes.ofText text = content := Bytes.ofText_of_toText? hname
    rw [tooLong, hcontent]
    exact ⟨hrest, decide_eq_false (Nat.not_lt_of_le hlength)⟩

/-- What is read as code is the bytes of that code, which nests fewer levels than there are. -/
theorem written_of_readCode {levels : Nat} {cursor next : Cursor} {code : Code}
    (h : readCode levels cursor = .ok (code, next)) :
    ∃ data, Written code data ∧ cursor.rest = data ++ next.rest ∧ code.depth < levels := by
  induction levels generalizing cursor next code with
  | zero => cases h
  | succ levels ih =>
    -- Two parts in turn are the bytes of both.
    have hpair : ∀ {start : Cursor} {result : Code → Code → Code},
        Reader.andThen (readCode levels) (fun first => Reader.andThen (readCode levels) fun second =>
          .done (result first second)) start = .ok (code, next) →
        ∃ first second left right, code = result first second ∧ Written first left ∧ Written second right ∧
          start.rest = left ++ right ++ next.rest ∧ max first.depth second.depth < levels := by
      intro start result hread
      obtain ⟨first, middle, hfirst, hread⟩ := andThen_eq_ok_iff.mp hread
      obtain ⟨second, last, hsecond, hread⟩ := andThen_eq_ok_iff.mp hread
      cases hread
      obtain ⟨left, hleft, hrest, hf⟩ := ih hfirst
      obtain ⟨right, hright, hrest', hs⟩ := ih hsecond
      refine ⟨first, second, left, right, rfl, hleft, hright, ?_, Nat.max_lt.mpr ⟨hf, hs⟩⟩
      rw [hrest, hrest', List.append_assoc]
    obtain ⟨position, rest⟩ := cursor
    cases rest with
    | nil =>
      rw [readCode_nil] at h
      cases h
    | cons tag rest =>
      rcases tag_cases tag with rfl | rfl | rfl | rfl | rfl | hunknown
      · rw [readCode_bytes] at h
        obtain ⟨payload, last, hpayload, h⟩ := andThen_eq_ok_iff.mp h
        cases h
        obtain ⟨hrest, hlength⟩ := rest_of_readCounted hpayload
        exact ⟨_, .bytes hlength, congrArg (tagBytes :: ·) hrest, Nat.succ_pos levels⟩
      · rw [readCode_ref] at h
        obtain ⟨name, last, hname, h⟩ := andThen_eq_ok_iff.mp h
        cases h
        obtain ⟨hrest, hshort⟩ := rest_of_readName hname
        exact ⟨_, .ref hshort, congrArg (tagRef :: ·) hrest, Nat.succ_pos levels⟩
      · rw [readCode_label] at h
        obtain ⟨name, middle, hname, h⟩ := andThen_eq_ok_iff.mp h
        obtain ⟨inner, last, hinner, h⟩ := andThen_eq_ok_iff.mp h
        cases h
        obtain ⟨hrest, hshort⟩ := rest_of_readName hname
        obtain ⟨data, hdata, hrest', hdepth⟩ := ih hinner
        refine ⟨_, .label hshort hdata, congrArg (tagLabel :: ·) ?_, Nat.succ_lt_succ hdepth⟩
        change rest = counted (Bytes.ofText name) ++ data ++ next.rest
        rw [List.append_assoc, ← hrest']
        exact hrest
      · rw [readCode_seq] at h
        obtain ⟨first, second, left, right, rfl, hleft, hright, hrest, hdepth⟩ := hpair h
        exact ⟨_, .seq hleft hright, congrArg (tagSeq :: ·) hrest, Nat.succ_lt_succ hdepth⟩
      · rw [readCode_deferred] at h
        obtain ⟨first, second, left, right, rfl, hleft, hright, hrest, hdepth⟩ := hpair h
        exact ⟨_, .deferred hleft hright, congrArg (tagDeferred :: ·) hrest, Nat.succ_lt_succ hdepth⟩
      · rw [readCode_unknown levels position rest hunknown] at h
        cases h

/-- The reader reports no error of a manifest. -/
def Reader.InCode {α : Type} (reader : Reader α) : Prop :=
  ∀ cursor errors, reader cursor ≠ .error (.manifest errors)

namespace Reader.InCode

variable {α β : Type}

theorem done (value : α) : (Reader.done value).InCode := by
  intro cursor errors h
  cases h

theorem andThen {first : Reader α} {second : α → Reader β} (hfirst : first.InCode)
    (hsecond : ∀ value, (second value).InCode) : (first.andThen second).InCode := by
  intro cursor errors h
  rw [Reader.andThen] at h
  cases hvalue : first cursor with
  | error error =>
    rw [hvalue, error_bind] at h
    cases h
    exact hfirst cursor errors hvalue
  | ok value =>
    rw [hvalue, ok_bind] at h
    exact hsecond value.1 value.2 errors h

theorem take (count : Nat) : Reader.InCode (Cursor.take · count) := by
  intro cursor errors h
  simp only [Cursor.take] at h
  split at h <;> cases h

theorem readCounted : Reader.InCode readCounted :=
  (take 2).andThen fun length => take (Bytes.toWord length)

theorem readName : Reader.InCode readName := by
  intro cursor errors h
  rw [ObjectFile.readName] at h
  cases hcontent : ObjectFile.readCounted cursor with
  | error error =>
    rw [hcontent, error_bind] at h
    cases h
    exact readCounted cursor errors hcontent
  | ok result =>
    obtain ⟨content, next⟩ := result
    rw [hcontent, ok_bind] at h
    dsimp only at h
    split at h <;> cases h

theorem readCode (levels : Nat) : Reader.InCode (readCode levels) := by
  induction levels with
  | zero =>
    intro cursor errors h
    cases h
  | succ levels ih =>
    intro cursor errors h
    obtain ⟨position, rest⟩ := cursor
    cases rest with
    | nil =>
      rw [readCode_nil] at h
      cases h
    | cons tag rest =>
      rcases tag_cases tag with rfl | rfl | rfl | rfl | rfl | hunknown
      · rw [readCode_bytes] at h
        exact readCounted.andThen (fun _ => done _) _ _ h
      · rw [readCode_ref] at h
        exact readName.andThen (fun _ => done _) _ _ h
      · rw [readCode_label] at h
        exact readName.andThen (fun _ => ih.andThen fun _ => done _) _ _ h
      · rw [readCode_seq] at h
        exact ih.andThen (fun _ => ih.andThen fun _ => done _) _ _ h
      · rw [readCode_deferred] at h
        exact ih.andThen (fun _ => ih.andThen fun _ => done _) _ _ h
      · rw [readCode_unknown levels position rest hunknown] at h
        cases h

end Reader.InCode
end ObjectFile
end StackLink
