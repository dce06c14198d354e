import StackLink.Proofs.CodeSection
import StackLink.Proofs.Manifest

/-!
# Object files

A file falls into its sections in one way at most: the first empty line ends the manifest. Reading is then
reading both sections, and a file that is read is the file of what was read, up to the layout of its manifest.
-/
namespace StackLink.ObjectFile

/-- Lines that are not empty, each with the newline that ends it. -/
inductive FullLines : Bytes → Prop where
  | nil : FullLines []
  | cons {line rest : Bytes} (hne : line ≠ []) (hline : 0x0A ∉ line) (hrest : FullLines rest) :
    FullLines (line ++ 0x0A :: rest)

/-- The file is the header, the manifest, an empty line and the code. -/
structure Sections (data manifest code : Bytes) : Prop where
  eq : data = header ++ manifest ++ 0x0A :: code
  lines : FullLines manifest

private theorem emptyLine?_inside {line : Bytes} (h : 0x0A ∉ line) (position : Nat) (rest : Bytes) :
    emptyLine? position false (line ++ 0x0A :: rest) = emptyLine? (position + line.length + 1) true rest := by
  induction line generalizing position with
  | nil => rfl
  | cons b line ih =>
    obtain ⟨hb, hline⟩ := not_or.mp (mt List.mem_cons.mpr h)
    rw [List.cons_append, emptyLine?, if_neg (Ne.symm hb), ih hline, List.length_cons]
    congr 1
    omega

theorem emptyLine?_line {line : Bytes} (hne : line ≠ []) (h : 0x0A ∉ line) (position : Nat) (rest : Bytes) :
    emptyLine? position true (line ++ 0x0A :: rest) = emptyLine? (position + line.length + 1) true rest := by
  cases line with
  | nil => exact absurd rfl hne
  | cons b line =>
    obtain ⟨hb, hline⟩ := not_or.mp (mt List.mem_cons.mpr h)
    rw [List.cons_append, emptyLine?, if_neg (Ne.symm hb), emptyLine?_inside hline, List.length_cons]
    congr 1
    omega

theorem emptyLine?_of_fullLines {lines : Bytes} (h : FullLines lines) (position : Nat) (rest : Bytes) :
    emptyLine? position true (lines ++ 0x0A :: rest) = some (position + lines.length) := by
  induction h generalizing position with
  | nil => rfl
  | @cons line later hne hline _ ih =>
    rw [List.append_assoc, List.cons_append, emptyLine?_line hne hline, ih, List.length_append, List.length_cons]
    congr 1
    omega

/-- An empty line is found after full lines, or after the rest of a line and then full lines. -/
private theorem emptyLine?_split {data : Bytes} {position found : Nat} :
    (emptyLine? position true data = some found →
      ∃ lines rest, FullLines lines ∧ data = lines ++ 0x0A :: rest) ∧
    (emptyLine? position false data = some found →
      ∃ line lines rest, 0x0A ∉ line ∧ FullLines lines ∧ data = line ++ 0x0A :: (lines ++ 0x0A :: rest)) := by
  induction data generalizing position with
  | nil => simp [emptyLine?]
  | cons b data ih =>
    by_cases hb : b = 0x0A
    · subst hb
      refine ⟨fun _ => ⟨[], data, .nil, rfl⟩, fun h => ?_⟩
      obtain ⟨lines, rest, hlines, hdata⟩ := ih.1 h
      exact ⟨[], lines, rest, List.not_mem_nil, hlines, congrArg (0x0A :: ·) hdata⟩
    · have hstep : ∀ start, emptyLine? position start (b :: data) = emptyLine? (position + 1) false data :=
        fun _ => if_neg hb
      rw [hstep, hstep]
      constructor
      · intro h
        obtain ⟨line, lines, rest, hline, hlines, hdata⟩ := ih.2 h
        have hmem : 0x0A ∉ b :: line := List.not_mem_cons_of_ne_of_not_mem (Ne.symm hb) hline
        refine ⟨(b :: line) ++ 0x0A :: lines, rest, .cons (List.cons_ne_nil b line) hmem hlines, ?_⟩
        simp [hdata]
      · intro h
        obtain ⟨line, lines, rest, hline, hlines, hdata⟩ := ih.2 h
        have hmem : 0x0A ∉ b :: line := List.not_mem_cons_of_ne_of_not_mem (Ne.symm hb) hline
        exact ⟨b :: line, lines, rest, hmem, hlines, congrArg (b :: ·) hdata⟩

namespace Sections

variable {data manifest code : Bytes}

theorem emptyLine?_eq (h : Sections data manifest code) :
    emptyLine? 0 true (manifest ++ 0x0A :: code) = some manifest.length := by
  rw [emptyLine?_of_fullLines h.lines, Nat.zero_add]

theorem append (h : Sections data manifest code) (more : Bytes) : Sections (data ++ more) manifest (code ++ more) where
  eq := by simp [h.eq]
  lines := h.lines

theorem unique {manifest' code' : Bytes} (h : Sections data manifest code) (h' : Sections data manifest' code') :
    manifest' = manifest ∧ code' = code := by
  have heq : manifest' ++ 0x0A :: code' = manifest ++ 0x0A :: code := by
    have hdata := h'.eq.symm.trans h.eq
    rwa [List.append_assoc, List.append_assoc, List.append_cancel_left_eq] at hdata
  have hlength : manifest'.length = manifest.length := by
    have hfound := h'.emptyLine?_eq
    rw [heq, h.emptyLine?_eq] at hfound
    exact (Option.some.inj hfound).symm
  obtain ⟨hmanifest, hcode⟩ := List.append_inj heq hlength
  exact ⟨hmanifest, (List.cons.inj hcode).2⟩

theorem length_eq (h : Sections data manifest code) :
    data.length = header.length + manifest.length + 1 + code.length := by
  rw [h.eq, List.length_append, List.length_append, List.length_cons]
  omega

theorem of_part (h : Sections data manifest code) {part : Bytes} (hpart : part <+: data)
    (hlength : header.length + manifest.length < part.length) :
    ∃ front, Sections part manifest front ∧ front <+: code := by
  have hstart : header ++ manifest ++ [0x0A] <+: data := by
    rw [h.eq]
    exact (List.prefix_append_right_inj _).mpr (List.prefix_append [0x0A] code)
  have hle : (header ++ manifest ++ [0x0A]).length ≤ part.length := by
    simp only [List.length_append, List.length_singleton]
    omega
  obtain ⟨front, rfl⟩ := List.prefix_of_prefix_length_le hstart hpart hle
  rw [List.append_assoc, List.singleton_append] at hpart ⊢
  refine ⟨front, ⟨rfl, h.lines⟩, ?_⟩
  rw [h.eq, List.prefix_append_right_inj, List.cons_prefix_cons] at hpart
  exact hpart.2

/-- The front of a file has no other manifest than the file. -/
theorem manifest_eq_of_part (h : Sections data manifest code) {part manifest' code' : Bytes} (hpart : part <+: data)
    (h' : Sections part manifest' code') : manifest' = manifest := by
  obtain ⟨more, rfl⟩ := hpart
  exact (h.unique (h'.append more)).1

end Sections

theorem afterHeader?_append (body : Bytes) : afterHeader? (header ++ body) = some body := by
  have hheader : header.isPrefixOf (header ++ body) := List.isPrefixOf_iff_prefix.mpr (List.prefix_append header body)
  rw [afterHeader?, if_pos hheader, List.drop_left]

theorem eq_append_of_afterHeader? {data body : Bytes} (h : afterHeader? data = some body) : data = header ++ body := by
  unfold afterHeader? at h
  split at h
  · next hheader =>
    obtain ⟨rest, rfl⟩ := List.isPrefixOf_iff_prefix.mp hheader
    rw [List.drop_left, Option.some.injEq] at h
    rw [h]
  · cases h

def finish (name : ModuleName) (manifest : Manifest) (result : Code × Cursor) : Except ObjectFileError Module :=
  match result.2.rest with
  | [] => .ok ⟨name, manifest, result.1⟩
  | _ :: _ => .error (.trailingData result.2.position)

theorem finish_eq_ok_iff {name : ModuleName} {manifest : Manifest} {result : Code × Cursor} {m : Module} :
    finish name manifest result = .ok m ↔ result.2.rest = [] ∧ m = ⟨name, manifest, result.1⟩ := by
  rw [finish]
  cases result.2.rest <;> simp [eq_comm]

/-- With both sections told apart, reading is reading the code section to its end. -/
theorem read_of_sections {data code : Bytes} {text : String} (h : Sections data (Bytes.ofText text) code)
    {name : ModuleName} {manifest : Manifest} (hparse : Manifest.parse name text = .ok manifest) :
    read name data =
      readCode (maxDepth + 1) ⟨header.length + (Bytes.ofText text).length + 1, code⟩ >>= finish name manifest := by
  have hbody : afterHeader? data = some (Bytes.ofText text ++ 0x0A :: code) := by
    rw [h.eq, List.append_assoc, afterHeader?_append]
  have htake : (Bytes.ofText text ++ 0x0A :: code).take (Bytes.ofText text).length = Bytes.ofText text :=
    List.take_left
  have hdrop : (Bytes.ofText text ++ 0x0A :: code).drop ((Bytes.ofText text).length + 1) = code := by
    rw [← List.drop_drop, List.drop_left, List.drop_succ_cons, List.drop_zero]
  simp only [read, hbody, h.emptyLine?_eq, htake, hdrop, Bytes.toText?_ofText, hparse]
  rfl

/-- A file without sections is refused, and so is one whose first section is not the text of a manifest. -/
theorem read_cases (name : ModuleName) (data : Bytes) :
    read name data = .error .missingHeader ∨ read name data = .error .unterminatedManifest ∨
      read name data = .error .nonUnicodeManifest ∨
      ∃ text code, Sections data (Bytes.ofText text) code ∧
        ((∃ errors, Manifest.parse name text = .error errors ∧ read name data = .error (.manifest errors)) ∨
          ∃ manifest, Manifest.parse name text = .ok manifest) := by
  cases hbody : afterHeader? data with
  | none => exact .inl (by simp only [read, hbody])
  | some body =>
    right
    cases hline : emptyLine? 0 true body with
    | none => exact .inl (by simp only [read, hbody, hline])
    | some length =>
      right
      obtain ⟨lines, code, hlines, rfl⟩ := emptyLine?_split.1 hline
      have hdata : Sections data lines code := by
        refine ⟨?_, hlines⟩
        rw [eq_append_of_afterHeader? hbody, List.append_assoc]
      have hlength : length = lines.length := Option.some.inj (hline.symm.trans hdata.emptyLine?_eq)
      subst hlength
      cases htext : Bytes.toText? lines with
      | none => exact .inl (by simp only [read, hbody, hline, List.take_left, htext])
      | some text =>
        right
        rw [← Bytes.ofText_of_toText? htext] at hdata
        refine ⟨text, code, hdata, ?_⟩
        cases hparse : Manifest.parse name text with
        | ok manifest => exact .inr ⟨manifest, rfl⟩
        | error errors =>
          exact .inl ⟨errors, rfl, by simp only [read, hbody, hline, List.take_left, htext, hparse]⟩

/-- Only the text of a manifest is reported as such. -/
theorem exists_parse_of_read {name : ModuleName} {data : Bytes} {errors : List LinkError}
    (h : read name data = .error (.manifest errors)) :
    ∃ text code, Sections data (Bytes.ofText text) code ∧ Manifest.parse name text = .error errors := by
  rcases read_cases name data with hread | hread | hread | ⟨text, code, hsections, hread | ⟨manifest, hparse⟩⟩
  · simp [hread] at h
  · simp [hread] at h
  · simp [hread] at h
  · obtain ⟨errors', hparse, hread⟩ := hread
    rw [hread] at h
    cases h
    exact ⟨text, code, hsections, hparse⟩
  · -- Once the manifest is read, the errors are those of the code section.
    rw [read_of_sections hsections hparse] at h
    cases hcode : readCode (maxDepth + 1) ⟨header.length + (Bytes.ofText text).length + 1, code⟩ with
    | error error =>
      rw [hcode, error_bind] at h
      cases h
      exact absurd hcode (Reader.InCode.readCode _ _ _)
    | ok result =>
      rw [hcode, ok_bind, finish] at h
      split at h <;> cases h

/-- A file is read exactly if its first section is the text of a manifest and its second one is the bytes of
code that is not nested too deeply. -/
theorem read_eq_ok_iff {name : ModuleName} {data : Bytes} {m : Module} :
    read name data = .ok m ↔
      m.name = name ∧ m.code.depth ≤ maxDepth ∧ ∃ text code, Sections data (Bytes.ofText text) code ∧
        Manifest.parse name text = .ok m.manifest ∧ Written m.code code := by
  constructor
  · intro h
    rcases read_cases name data with hread | hread | hread | ⟨text, code, hsections, hread | ⟨manifest, hparse⟩⟩
    · simp [hread] at h
    · simp [hread] at h
    · simp [hread] at h
    · obtain ⟨errors, _, hread⟩ := hread
      simp [hread] at h
    rw [read_of_sections hsections hparse] at h
    obtain ⟨⟨tree, last⟩, hread, hend⟩ := bind_eq_ok_iff.mp h
    obtain ⟨hrest, rfl⟩ := finish_eq_ok_iff.mp hend
    obtain ⟨written, hwritten, hcode, hdepth⟩ := written_of_readCode hread
    have heq : code = written := by
      rw [← List.append_nil written, ← hrest]
      exact hcode
    subst heq
    exact ⟨rfl, Nat.le_of_lt_succ hdepth, text, code, hsections, hparse, hwritten⟩
  · rintro ⟨rfl, hdepth, text, code, hsections, hparse, hwritten⟩
    have hread := (takes_readCode hwritten (Nat.lt_succ_of_le hdepth)).whole
      (header.length + (Bytes.ofText text).length + 1) []
    rw [List.append_nil] at hread
    rw [read_of_sections hsections hparse, hread, ok_bind]
    rfl

theorem read_tooDeep {data code : Bytes} {text : String} (h : Sections data (Bytes.ofText text) code)
    {name : ModuleName} {manifest : Manifest} (hparse : Manifest.parse name text = .ok manifest) {tree : Code}
    (hwritten : Written tree code) (hdepth : maxDepth < tree.depth) :
    ∃ deep, read name data = .error (.tooDeep deep) := by
  obtain ⟨deep, hdeep⟩ :=
    readCode_tooDeep hwritten hdepth (header.length + (Bytes.ofText text).length + 1) []
  rw [List.append_nil] at hdeep
  exact ⟨deep, by rw [read_of_sections h hparse, hdeep, error_bind]⟩

theorem write_eq_ok_iff {m : Module} {data : Bytes} :
    write m = .ok data ↔
      ∃ code, writeCode m.code = .ok code ∧ data = header ++ Bytes.ofText m.manifest.text ++ 0x0A :: code := by
  rw [write, bind_eq_ok_iff]
  simp only [Except.ok.injEq, eq_comm]

/-- The text of a manifest is made of full lines if no name in it breaks a line. -/
theorem fullLines_text {manifest : Manifest} (h : ∀ symbol ∈ manifest, symbol.name.Plain) :
    FullLines (Bytes.ofText manifest.text) := by
  induction manifest with
  | nil => exact .nil
  | cons symbol rest ih =>
    have hplain := h symbol List.mem_cons_self
    have hnewline : 0x0A ∉ Bytes.ofText (Manifest.lineContent symbol) := by
      rw [Bytes.newline_mem_ofText_iff]
      exact Manifest.newline_not_mem_lineContent hplain
    have hne : Bytes.ofText (Manifest.lineContent symbol) ≠ [] := fun hnil =>
      Manifest.lineContent_ne_empty symbol (Bytes.ofText_inj.mp hnil)
    have hrest := ih fun symbol hsymbol => h symbol (List.mem_cons_of_mem _ hsymbol)
    have htext : Bytes.ofText (Manifest.text (symbol :: rest)) =
        Bytes.ofText (Manifest.lineContent symbol) ++ 0x0A :: Bytes.ofText (Manifest.text rest) := by
      rw [Manifest.text_cons, Bytes.ofText_append, Bytes.ofText_append, List.append_assoc]
      rfl
    rw [htext]
    exact .cons hne hnewline hrest

theorem sections_of_written {m : Module} (hplain : ∀ symbol ∈ m.manifest, symbol.name.Plain) {code : Bytes} :
    Sections (header ++ Bytes.ofText m.manifest.text ++ 0x0A :: code) (Bytes.ofText m.manifest.text) code :=
  ⟨rfl, fullLines_text hplain⟩

theorem write_cases (m : Module) :
    (∃ code, write m = .ok (header ++ Bytes.ofText m.manifest.text ++ 0x0A :: code) ∧ Written m.code.split code ∧
        ¬∃ name ∈ m.code.mentions, tooLong name) ∨
      ∃ name ∈ m.code.mentions, tooLong name ∧ write m = .error (.nameTooLong name) := by
  have houtcome := writeCode_outcome m.code
  cases hcode : writeCode m.code with
  | ok code =>
    rw [hcode] at houtcome
    cases houtcome with
    | written hwritten hnone =>
      left
      refine ⟨code, write_eq_ok_iff.mpr ⟨code, hcode, rfl⟩, hwritten, ?_⟩
      intro h
      obtain ⟨name, hname, hlong⟩ := h
      exact List.find?_eq_none.mp hnone name hname hlong
  | error error =>
    rw [hcode] at houtcome
    cases houtcome with
    | @refused long hlong =>
      right
      refine ⟨long, List.mem_of_find?_eq_some hlong, List.find?_some hlong, ?_⟩
      rw [write, hcode, error_bind]

/-- Writing fails exactly if a name in the code is too long for its length to be written, and reports such a name.
A file that was written is read as the module with its long payloads split exactly if the names in the manifest
are words and the code is not nested too deeply. -/
theorem read_write (m : Module) :
    ((∃ error, write m = .error error) ↔ ∃ name ∈ m.code.mentions, 65535 < (Bytes.ofText name).length) ∧
    (∀ error, write m = .error error →
      ∃ name ∈ m.code.mentions, 65535 < (Bytes.ofText name).length ∧ error = .nameTooLong name) ∧
    ∀ name data, write m = .ok data →
      (read name data = .ok ⟨name, m.manifest, m.code.split⟩ ↔
        (∀ symbol ∈ m.manifest, symbol.name.Plain) ∧ m.code.split.depth ≤ 1024) := by
  have hlong (name : SymbolName) : 65535 < (Bytes.ofText name).length ↔ tooLong name := decide_eq_true_iff.symm
  simp only [hlong]
  obtain ⟨code, hwrite, hwritten, hshort⟩ | ⟨name, hname, htooLong, hwrite⟩ := write_cases m
  · rw [hwrite]
    refine ⟨⟨fun herror => ?_, fun h => absurd h hshort⟩, fun error herror => ?_, fun name data hdata => ?_⟩
    · obtain ⟨error, herror⟩ := herror
      cases herror
    · cases herror
    · cases hdata
      rw [read_eq_ok_iff]
      constructor
      · intro h
        obtain ⟨_, hdepth, text, _, _, hparse, _⟩ := h
        exact ⟨Manifest.plain_of_parse hparse, hdepth⟩
      · intro h
        obtain ⟨hplain, hdepth⟩ := h
        exact ⟨rfl, hdepth, m.manifest.text, code, sections_of_written hplain, Manifest.parse_text name hplain,
          hwritten⟩
  · rw [hwrite]
    refine ⟨⟨fun _ => ⟨name, hname, htooLong⟩, fun _ => ⟨_, rfl⟩⟩, fun error herror => ?_, fun _ data hdata => ?_⟩
    · cases herror
      exact ⟨name, hname, htooLong, rfl⟩
    · cases hdata

theorem read_write_long_payload :
    let m : Module := ⟨"a", [⟨"U", .undefined⟩, ⟨"D", .defined (-2)⟩],
      .label "D" (.deferred (.ref "U") (.bytes (List.replicate 65536 0)))⟩
    ∃ data, write m = .ok data ∧ read "b" data = .ok ⟨"b", m.manifest,
      .label "D" (.deferred (.ref "U") (.seq (.bytes (List.replicate 65535 0)) (.bytes [0])))⟩ := by
  intro m
  obtain ⟨hfails, _, hround⟩ := read_write m
  have hsplit : m.code.split =
      .label "D" (.deferred (.ref "U") (.seq (.bytes (List.replicate 65535 0)) (.bytes [0]))) := by
    have hlong : maxLength < (List.replicate 65536 (0 : UInt8)).length := by
      rw [List.length_replicate]
      decide
    have hpayload : Code.splitPayload (List.replicate 65536 0) =
        .seq (.bytes (List.replicate 65535 0)) (.bytes [0]) := by
      rw [Code.splitPayload_of_lt hlong, List.take_replicate, List.drop_replicate]
      exact congrArg _ (Code.splitPayload_of_le (by decide))
    simp only [m, Code.split, hpayload]
  cases hwrite : write m with
  | error error =>
    obtain ⟨name, hname, hlong⟩ := hfails.mp ⟨error, hwrite⟩
    have hshort : ∀ name ∈ m.code.mentions, (Bytes.ofText name).length ≤ 65535 := by decide
    exact absurd (hshort name hname) (Nat.not_le_of_lt hlong)
  | ok data =>
    refine ⟨data, rfl, ?_⟩
    rw [← hsplit]
    refine (hround "b" data hwrite).mpr ⟨by decide, ?_⟩
    rw [hsplit]
    decide

section Read

variable {name : ModuleName} {data : Bytes} {m : Module} (h : read name data = .ok m)
include h

theorem read_append {more : Bytes} (hmore : more ≠ []) :
    read name (data ++ more) = .error (.trailingData data.length) := by
  obtain ⟨_, hdepth, text, code, hsections, hparse, hwritten⟩ := read_eq_ok_iff.mp h
  have hread := (takes_readCode hwritten (Nat.lt_succ_of_le hdepth)).whole
    (header.length + (Bytes.ofText text).length + 1) more
  obtain ⟨b, rest, rfl⟩ := List.exists_cons_of_ne_nil hmore
  rw [read_of_sections (hsections.append _) hparse, hread, ok_bind, hsections.length_eq]
  rfl

theorem read_part {manifest code part : Bytes} (hsections : Sections data manifest code) (hpart : part <+: data)
    (hne : part ≠ data) (hlength : header.length + manifest.length < part.length) :
    read name part = .error (.truncated part.length) := by
  obtain ⟨_, hdepth, text, code', hsections', hparse, hwritten⟩ := read_eq_ok_iff.mp h
  obtain ⟨rfl, rfl⟩ := hsections.unique hsections'
  obtain ⟨front, hfront, hcode⟩ := hsections.of_part hpart hlength
  have hne' : front ≠ code' := by
    intro heq
    apply hne
    rw [hfront.eq, hsections.eq, heq]
  have hread := (takes_readCode hwritten (Nat.lt_succ_of_le hdepth)).cut
    (header.length + (Bytes.ofText text).length + 1) hcode hne'
  rw [read_of_sections hfront hparse, hread, error_bind, hfront.length_eq]

theorem read_part_error {part : Bytes} (hpart : part <+: data) (hne : part ≠ data) :
    ∃ error, read name part = .error error := by
  obtain ⟨_, _, text, code, hsections, _⟩ := read_eq_ok_iff.mp h
  cases hread : read name part with
  | error error => exact ⟨error, rfl⟩
  | ok m' =>
    -- The part would have the manifest of the whole file, and so be cut inside the code.
    obtain ⟨_, _, text', front, hfront, _⟩ := read_eq_ok_iff.mp hread
    have hlength := hfront.length_eq
    rw [hsections.manifest_eq_of_part hpart hfront] at hlength
    have herror := read_part h hsections hpart hne (by omega)
    rw [hread] at herror
    cases herror

theorem read_write_of_read {manifest code : Bytes} (hsections : Sections data manifest code) :
    ∃ written, write m = .ok written ∧ read name written = .ok m ∧
      Sections written (Bytes.ofText m.manifest.text) code := by
  obtain ⟨hname, hdepth, text, code', hsections', hparse, hwritten⟩ := read_eq_ok_iff.mp h
  obtain ⟨rfl, rfl⟩ := hsections.unique hsections'
  have hplain := Manifest.plain_of_parse hparse
  refine ⟨_, write_eq_ok_iff.mpr ⟨code', writeCode_of_written hwritten, rfl⟩, ?_, sections_of_written hplain⟩
  have hparse' := Manifest.parse_text name hplain
  exact read_eq_ok_iff.mpr
    ⟨hname, hdepth, m.manifest.text, code', sections_of_written hplain, hparse', hwritten⟩

end Read

/-- A file that is read is in the one form that its code has: the module that was read is written with the same
code section and read back, no byte can be added to the file, and none can be missing from its end. -/
theorem read_canonical {name : ModuleName} {data : Bytes} {m : Module} (h : read name data = .ok m) :
    ∃ manifest code, Sections data manifest code ∧
      (∃ written, write m = .ok written ∧ read name written = .ok m ∧
        Sections written (Bytes.ofText m.manifest.text) code) ∧
      (∀ more, more ≠ [] → read name (data ++ more) = .error (.trailingData data.length)) ∧
      ∀ part, part <+: data → part ≠ data → (∃ error, read name part = .error error) ∧
        (header.length + manifest.length < part.length → read name part = .error (.truncated part.length)) := by
  obtain ⟨_, _, text, code, hsections, _⟩ := read_eq_ok_iff.mp h
  refine ⟨Bytes.ofText text, code, hsections, read_write_of_read h hsections, fun _ => read_append h, ?_⟩
  intro part hpart hne
  exact ⟨read_part_error h hpart hne, read_part h hsections hpart hne⟩

theorem read_canonical_bare :
    let data := header ++ Bytes.ofText "x D 3\n" ++ [0x0A, 0x52, 1, 0, 0x78]
    let m : Module := ⟨"a", [⟨"x", .defined 3⟩], .ref "x"⟩
    read "a" data = .ok m ∧ ∃ written, write m = .ok written ∧ read "a" written = .ok m := by
  intro data m
  have hread : read "a" data = .ok m := by
    refine read_eq_ok_iff.mpr ⟨rfl, by decide, "x D 3\n", [0x52, 1, 0, 0x78], ⟨rfl, ?_⟩, rfl, .ref (by decide)⟩
    have hline : FullLines (Bytes.ofText "x D 3" ++ 0x0A :: []) := .cons (by decide) (by decide) .nil
    exact hline
  obtain ⟨_, _, _, ⟨written, hwrite, hagain, _⟩, _⟩ := read_canonical hread
  exact ⟨hread, written, hwrite, hagain⟩

end StackLink.ObjectFile
