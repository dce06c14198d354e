import Mathlib.Algebra.Group.Nat.Defs
import StackLink.Bytes

/-!
# Words and texts as bytes

A word of some width and its bytes determine each other, and so do a text and its UTF-8 form. The byte of a
newline stands for a newline only, so that lines can be told apart before the text is decoded. Code points and UTF-8
bytes put texts in the same order.
-/
namespace StackLink.Bytes

theorem toWord_lt (bytes : Bytes) : toWord bytes < Nat.pow 256 bytes.length := by
  induction bytes with
  | nil => decide
  | cons b rest ih =>
    have hb : b.toNat < 256 := b.toNat_lt
    change b.toNat + 256 * toWord rest < Nat.pow 256 rest.length * 256
    omega

theorem ofWord_toWord (bytes : Bytes) : ofWord bytes.length (toWord bytes) = bytes := by
  induction bytes with
  | nil => rfl
  | cons b rest ih =>
    have hb : b.toNat < 256 := b.toNat_lt
    have hlow : UInt8.ofNat (b.toNat + 256 * toWord rest) = b := by
      apply UInt8.toNat_inj.mp
      rw [UInt8.toNat_ofNat']
      omega
    have hhigh : (b.toNat + 256 * toWord rest) / 256 = toWord rest := by omega
    rw [List.length_cons, toWord, ofWord, hlow, hhigh, ih]

@[simp] theorem ofNat_toWord_singleton (b : UInt8) : UInt8.ofNat (toWord [b]) = b := by
  simp [toWord]

theorem ofOffset_toOffset {bytes : Bytes} (h : bytes.length = 2) : ofOffset (toOffset bytes) = bytes := by
  have hlt : toWord bytes < 65536 := by
    have hword := toWord_lt bytes
    rwa [h] at hword
  have hnat : (toOffset bytes).toUInt16.toNat = toWord bytes := by
    rw [toOffset, UInt16.toUInt16_toInt16, UInt16.toNat_ofNat', Nat.mod_eq_of_lt hlt]
  rw [ofOffset, hnat, ← h, ofWord_toWord]

@[simp] theorem toText?_ofText (text : String) : toText? (ofText text) = some text := by
  unfold toText? ofText String.fromUTF8?
  rw [Array.toArray_toList, String.toUTF8_eq_toByteArray, dif_pos text.isValidUTF8]
  rfl

theorem ofText_of_toText? {bytes : Bytes} {text : String} (h : toText? bytes = some text) :
    ofText text = bytes := by
  unfold toText? String.fromUTF8? at h
  split at h
  · cases h
    rfl
  · cases h

theorem ofText_inj {text other : String} : ofText text = ofText other ↔ text = other := by
  refine ⟨fun h => ?_, congrArg ofText⟩
  have hsome := congrArg toText? h
  rwa [toText?_ofText, toText?_ofText, Option.some.injEq] at hsome

@[simp] theorem ofText_append (first second : String) : ofText (first ++ second) = ofText first ++ ofText second := by
  simp [ofText]

theorem ofText_eq_flatMap (text : String) : ofText text = text.toList.flatMap String.utf8EncodeChar := by
  have hencode : text.toUTF8 = text.toList.utf8Encode := by
    conv => lhs; rw [← String.ofList_toList (s := text)]
    rw [String.toUTF8_eq_toByteArray, String.toByteArray_ofList]
  rw [ofText, hencode]
  simp [List.utf8Encode]

private theorem ofNat_ne_newline {n : Nat} (hlow : 128 ≤ n) (hhigh : n < 256) : UInt8.ofNat n ≠ 0x0A := by
  intro h
  have hn := congrArg UInt8.toNat h
  rw [UInt8.toNat_ofNat', Nat.mod_eq_of_lt hhigh] at hn
  change n = 10 at hn
  omega

theorem newline_mem_utf8EncodeChar_iff {c : Char} : 0x0A ∈ String.utf8EncodeChar c ↔ c = '\n' := by
  constructor
  · intro h
    rw [String.utf8EncodeChar.eq_def] at h
    dsimp only at h
    split at h
    · have hn := congrArg UInt8.toNat (List.mem_singleton.mp h)
      rw [UInt8.toNat_ofNat', Nat.mod_eq_of_lt (by omega)] at hn
      apply Char.toNat_inj.mp
      exact hn.symm
    · -- in a form of several bytes each has its top bit set
      split at h
      · simp only [List.mem_cons, List.not_mem_nil, or_false] at h
        rcases h with h | h <;> exact absurd h.symm (ofNat_ne_newline (by omega) (by omega))
      · split at h
        · simp only [List.mem_cons, List.not_mem_nil, or_false] at h
          rcases h with h | h | h <;> exact absurd h.symm (ofNat_ne_newline (by omega) (by omega))
        · simp only [List.mem_cons, List.not_mem_nil, or_false] at h
          rcases h with h | h | h | h <;> exact absurd h.symm (ofNat_ne_newline (by omega) (by omega))
  · intro h
    subst h
    decide

theorem newline_mem_ofText_iff {text : String} : 0x0A ∈ ofText text ↔ '\n' ∈ text.toList := by
  rw [ofText_eq_flatMap, List.mem_flatMap]
  constructor
  · intro h
    obtain ⟨c, hc, hbyte⟩ := h
    rw [newline_mem_utf8EncodeChar_iff.mp hbyte] at hc
    exact hc
  · intro h
    exact ⟨'\n', h, newline_mem_utf8EncodeChar_iff.mpr rfl⟩

private theorem ofNat_lt_ofNat {m n : Nat} (h : m < n) (hn : n < 256) : UInt8.ofNat m < UInt8.ofNat n := by
  rw [UInt8.lt_iff_toNat_lt, UInt8.toNat_ofNat', UInt8.toNat_ofNat']
  omega

/-- A number in groups of six bits: one on top of `lead`, and `width` more behind it. -/
private def sextets (lead : Nat) : (width : Nat) → Nat → Bytes
  | 0, n => [UInt8.ofNat (lead + n)]
  | width + 1, n => sextets lead width (n / 64) ++ [UInt8.ofNat (n % 64 + 128)]

private theorem exists_sextets_eq_cons (lead width n : Nat) :
    ∃ rest, sextets lead width n = UInt8.ofNat (lead + n / 64 ^ width) :: rest := by
  induction width generalizing n with
  | zero => exact ⟨[], by rw [sextets, Nat.pow_zero, Nat.div_one]⟩
  | succ width ih =>
    obtain ⟨rest, hrest⟩ := ih (n / 64)
    exact ⟨_, by rw [sextets, hrest, List.cons_append, Nat.div_div_eq_div_mul, ← Nat.pow_succ']⟩

private theorem sextets_lt {lead width m n : Nat} (h : m < n) (hn : lead + n / 64 ^ width < 256) (x y : Bytes) :
    sextets lead width m ++ x < sextets lead width n ++ y := by
  induction width generalizing m n x y with
  | zero =>
    rw [Nat.pow_zero, Nat.div_one] at hn
    exact List.cons_lt_cons_iff.mpr (.inl (ofNat_lt_ofNat (by omega) hn))
  | succ width ih =>
    rw [Nat.pow_succ', ← Nat.div_div_eq_div_mul] at hn
    rw [sextets, sextets, List.append_assoc, List.append_assoc]
    by_cases hhigh : m / 64 < n / 64
    · exact ih hhigh hn _ _
    · -- the last sextet decides between numbers that agree in the others
      have hsame : m / 64 = n / 64 := by omega
      rw [hsame]
      apply List.append_left_lt
      exact List.cons_lt_cons_iff.mpr (.inl (ofNat_lt_ofNat (by omega) (by omega)))

/-- The mark and the width of the UTF-8 form of a code point. -/
private def form (n : Nat) : Nat × Nat :=
  if n ≤ 0x7F then (0, 0) else if n ≤ 0x7FF then (0xC0, 1) else if n ≤ 0xFFFF then (0xE0, 2) else (0xF0, 3)

private theorem form_eq (n : Nat) :
    n ≤ 0x7F ∧ form n = (0, 0) ∨ (0x7F < n ∧ n ≤ 0x7FF) ∧ form n = (0xC0, 1) ∨
      (0x7FF < n ∧ n ≤ 0xFFFF) ∧ form n = (0xE0, 2) ∨ 0xFFFF < n ∧ form n = (0xF0, 3) := by
  unfold form
  split
  · exact .inl ⟨by assumption, rfl⟩
  · split
    · exact .inr (.inl ⟨by omega, rfl⟩)
    · split
      · exact .inr (.inr (.inl ⟨by omega, rfl⟩))
      · exact .inr (.inr (.inr ⟨by omega, rfl⟩))

private theorem toNat_lt (c : Char) : c.toNat < 0x110000 := by
  have hvalid : c.toNat.isValidChar := c.valid
  unfold Nat.isValidChar at hvalid
  omega

private theorem utf8EncodeChar_eq_sextets (c : Char) :
    String.utf8EncodeChar c = sextets (form c.toNat).1 (form c.toNat).2 c.toNat := by
  have hmax := toNat_lt c
  rw [String.utf8EncodeChar.eq_def]
  simp only [Char.toNat_val]
  generalize c.toNat = n at hmax
  rcases form_eq n with ⟨hn, hform⟩ | ⟨hn, hform⟩ | ⟨hn, hform⟩ | ⟨hn, hform⟩
  · rw [hform, if_pos hn, sextets, Nat.zero_add]
  · have hfirst : n / 64 % 32 + 0xC0 = 0xC0 + n / 64 := by omega
    rw [hform, if_neg (by omega), if_pos hn.2, hfirst]
    rfl
  · have hfirst : n / 4096 % 16 + 0xE0 = 0xE0 + n / 64 / 64 := by omega
    rw [hform, if_neg (by omega), if_neg (by omega), if_pos hn.2, hfirst]
    rfl
  · have hfirst : n / 262144 % 8 + 0xF0 = 0xF0 + n / 64 / 64 / 64 := by omega
    have hsecond : n / 4096 = n / 64 / 64 := by omega
    rw [hform, if_neg (by omega), if_neg (by omega), if_neg (by omega), hfirst, hsecond]
    rfl

private theorem form_cases {m n : Nat} (h : m < n) (hn : n < 0x110000) :
    (form n).1 + n / 64 ^ (form n).2 < 256 ∧
      (form m = form n ∨ (form m).1 + m / 64 ^ (form m).2 < (form n).1 + n / 64 ^ (form n).2) := by
  rcases form_eq m with ⟨hm, hformM⟩ | ⟨hm, hformM⟩ | ⟨hm, hformM⟩ | ⟨hm, hformM⟩ <;>
    rcases form_eq n with ⟨hn, hformN⟩ | ⟨hn, hformN⟩ | ⟨hn, hformN⟩ | ⟨hn, hformN⟩ <;>
    simp only [hformM, hformN, Nat.reducePow, true_or, and_true] <;> omega

theorem utf8EncodeChar_lt {a b : Char} (h : a < b) (x y : Bytes) :
    String.utf8EncodeChar a ++ x < String.utf8EncodeChar b ++ y := by
  have hlt : a.toNat < b.toNat := h
  obtain ⟨hbyte, hform⟩ := form_cases hlt (toNat_lt b)
  rw [utf8EncodeChar_eq_sextets, utf8EncodeChar_eq_sextets]
  rcases hform with hsame | hfirst
  · rw [hsame]
    exact sextets_lt hlt hbyte x y
  · obtain ⟨rest, hrest⟩ := exists_sextets_eq_cons (form a.toNat).1 (form a.toNat).2 a.toNat
    obtain ⟨rest', hrest'⟩ := exists_sextets_eq_cons (form b.toNat).1 (form b.toNat).2 b.toNat
    rw [hrest, hrest']
    exact List.cons_lt_cons_iff.mpr (.inl (ofNat_lt_ofNat hfirst hbyte))

/-- Texts are ordered by their code points as they are by the bytes of their UTF-8 forms. -/
theorem ofText_lt_ofText {text other : String} (h : text < other) : ofText text < ofText other := by
  rw [ofText_eq_flatMap, ofText_eq_flatMap]
  have hlist : text.toList < other.toList := h
  generalize text.toList = first at hlist
  generalize other.toList = second at hlist
  induction hlist with
  | nil =>
    rw [List.flatMap_nil, List.flatMap_cons, ← List.not_le, List.le_nil, List.append_eq_nil_iff]
    exact fun hnil => String.utf8EncodeChar_ne_nil hnil.1
  | cons hrest ih =>
    rw [List.flatMap_cons, List.flatMap_cons]
    exact List.append_left_lt ih
  | rel hchar =>
    rw [List.flatMap_cons, List.flatMap_cons]
    exact utf8EncodeChar_lt hchar _ _

end StackLink.Bytes
