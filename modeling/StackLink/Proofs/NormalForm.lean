import StackLink.Link
import StackLink.Proofs.PassTwo

/-!
# What pass two leaves of code

Whatever the table says, pass two brings code to a normal form of the same size: deferred sequences as they were,
and between them bytes joined as far as they meet in a sequence. Code in this form is not changed by another pass,
and it is a single run of bytes if nothing in it was deferred, as is always so in the last link.
-/
namespace StackLink.Code

/-- Outside its deferred sequences the code has only bytes, and no sequence of two pieces of bytes. -/
inductive Collapsed : Code → Prop where
  | bytes (payload : Bytes) : Collapsed (.bytes payload)
  | seq {first second : Code} (hfirst : Collapsed first) (hsecond : Collapsed second)
    (hmixed : ¬∃ left right, first = .bytes left ∧ second = .bytes right) : Collapsed (.seq first second)
  | deferred (first second : Code) : Collapsed (.deferred first second)

def deferredParts : Code → List Code
  | bytes _ | ref _ => []
  | label _ inner => inner.deferredParts
  | seq first second => first.deferredParts ++ second.deferredParts
  | deferred first second => [.deferred first second]

theorem deferredParts_eq_nil_iff {code : Code} : code.deferredParts = [] ↔ code.isDeferred = false := by
  induction code with
  | bytes payload => simp [deferredParts, isDeferred]
  | ref name => simp [deferredParts, isDeferred]
  | label name inner ih => simpa [deferredParts, isDeferred] using ih
  | seq first second ihf ihs => simp [deferredParts, isDeferred, ihf, ihs]
  | deferred first second _ _ => simp [deferredParts, isDeferred]

theorem isDeferred_release (code : Code) : code.release.isDeferred = false := by
  induction code with
  | bytes payload => rfl
  | ref name => rfl
  | label name inner ih => exact ih
  | seq first second ihf ihs | deferred first second ihf ihs => simp [release, isDeferred, ihf, ihs]

@[simp] theorem size_join (first second : Code) : (join first second).size = first.size + second.size := by
  unfold join
  split <;> simp [size]

@[simp] theorem deferredParts_join (first second : Code) :
    (join first second).deferredParts = first.deferredParts ++ second.deferredParts := by
  unfold join
  split <;> simp [deferredParts]

theorem join_of_mixed {first second : Code} (h : ¬∃ left right, first = .bytes left ∧ second = .bytes right) :
    join first second = .seq first second := by
  unfold join
  split
  · next left right => exact absurd ⟨left, right, rfl, rfl⟩ h
  · rfl

namespace Collapsed

theorem join {first second : Code} (hfirst : Collapsed first) (hsecond : Collapsed second) :
    Collapsed (Code.join first second) := by
  by_cases h : ∃ left right, first = .bytes left ∧ second = .bytes right
  · obtain ⟨left, right, rfl, rfl⟩ := h
    exact .bytes (left ++ right)
  · rw [join_of_mixed h]
    exact .seq hfirst hsecond h

/-- In normal form only the deferred sequences keep code from being bytes. -/
theorem isBytes_iff {code : Code} (h : Collapsed code) :
    (∃ payload, code = .bytes payload) ↔ code.deferredParts = [] := by
  induction h with
  | bytes payload => simp [deferredParts]
  | @seq first second _ _ hmixed ihf ihs =>
    constructor
    · simp
    · intro hparts
      simp only [deferredParts, List.append_eq_nil_iff] at hparts
      have hfirst := ihf.mpr hparts.1
      have hsecond := ihs.mpr hparts.2
      apply absurd _ hmixed
      simp [hfirst, hsecond]
  | deferred first second => simp [deferredParts]

theorem substituteAt_eq {code : Code} (h : Collapsed code) (position : Int) (table : SymbolTable) :
    code.substituteAt position table = ⟨table, [], code, code.size⟩ := by
  induction h generalizing position with
  | bytes payload => rfl
  | seq _ _ hmixed ihf ihs =>
    simp only [substituteAt, ihf, ihs, join_of_mixed hmixed, List.append_nil]
    rfl
  | deferred first second => rfl

end Collapsed

/-- What pass two makes of code, up to the bytes that it fills in. -/
structure Residue (code rest : Code) : Prop where
  collapsed : rest.Collapsed
  size : rest.size = code.size
  parts : rest.deferredParts = code.deferredParts

theorem Residue.join {first second left right : Code} (hfirst : Residue first left) (hsecond : Residue second right) :
    Residue (.seq first second) (Code.join left right) where
  collapsed := hfirst.collapsed.join hsecond.collapsed
  size := by rw [size_join, hfirst.size, hsecond.size, Code.size]
  parts := by rw [deferredParts_join, hfirst.parts, hsecond.parts, deferredParts]

/-- This holds with errors as well, when the bytes only stand in for others. -/
theorem residue_substituteAt (code : Code) (position : Int) (table : SymbolTable) :
    Residue code (code.substituteAt position table).code ∧ (code.substituteAt position table).size = code.size := by
  induction code generalizing position table with
  | bytes payload => exact ⟨⟨.bytes payload, rfl, rfl⟩, rfl⟩
  | ref name =>
    rw [substituteAt]
    cases table.offset? name with
    | none => exact ⟨⟨.bytes _, rfl, rfl⟩, rfl⟩
    | some offset => exact ⟨⟨.bytes _, rfl, rfl⟩, rfl⟩
  | label name inner ih =>
    -- the label goes, and what it holds stays in its place
    have hinner (table : SymbolTable) : Residue (.label name inner) (inner.substituteAt position table).code ∧
        (inner.substituteAt position table).size = inner.size := by
      have h := ih position table
      exact ⟨⟨h.1.collapsed, h.1.size, h.1.parts⟩, h.2⟩
    rw [substituteAt]
    cases Offset.ofInt? position with
    | none => exact hinner table
    | some offset => exact hinner _
  | seq first second ihf ihs =>
    have hfirst := ihf position table
    have hsecond := ihs (position + (first.substituteAt position table).size) (first.substituteAt position table).table
    exact ⟨hfirst.1.join hsecond.1, congrArg₂ (· + ·) hfirst.2 hsecond.2⟩
  | deferred first second _ _ => exact ⟨⟨.deferred first second, rfl, rfl⟩, rfl⟩

theorem Residue.of_reduceAt {code : Code} {table : SymbolTable} {position : Int} {r : Reduced}
    (h : (code.reduceAt table position).2 = .ok r) : Residue code r.code ∧ r.size = code.size := by
  rw [snd_reduceAt_eq_ok_iff] at h
  rw [h.2]
  exact residue_substituteAt code position table

theorem Residue.isBytes_iff {code rest : Code} (h : Residue code rest) :
    (∃ payload, rest = .bytes payload) ↔ code.isDeferred = false := by
  rw [h.collapsed.isBytes_iff, h.parts, deferredParts_eq_nil_iff]

/-- Reduced code has the size of the code, its outermost deferred sequences as they were and nothing else but bytes,
joined wherever two pieces meet in a sequence. It is bytes altogether just if nothing was deferred, and reducing it
again, with any table and from any base, gives it back and leaves the table alone. So a module that the last link has
released and reduced always has content. -/
theorem reduce_normal_form :
    (∀ (code : Code) (table : SymbolTable) (base : Int16) (r : Reduced), (code.reduce table base).2 = .ok r →
      r.size = code.size ∧ r.code.size = code.size ∧
      ((∃ payload, r.code = .bytes payload) ↔ code.isDeferred = false) ∧
      r.code.Collapsed ∧ r.code.deferredParts = code.deferredParts ∧
      ∀ (other : SymbolTable) (start : Int16), r.code.reduce other start = (other, .ok r)) ∧
    ∀ (placed : PlacedModule) (table final : SymbolTable) (r : Reduced),
      placed.module.code.release.reduceAt table placed.base = (final, .ok r) →
        ∃ content, r.code.content? = some content := by
  constructor
  · intro code table base r h
    have hresidue := Residue.of_reduceAt h
    have hrest := hresidue.1
    refine ⟨hresidue.2, hrest.size, hrest.isBytes_iff, hrest.collapsed, hrest.parts, ?_⟩
    intro other start
    have hsize : r.code.size = r.size := by rw [hrest.size, hresidue.2]
    simp only [reduce, reduceAt, hrest.collapsed.substituteAt_eq, hsize]
  · intro placed table final r h
    have hresidue := Residue.of_reduceAt (congrArg Prod.snd h)
    obtain ⟨payload, hpayload⟩ := hresidue.1.isBytes_iff.mpr (isDeferred_release _)
    exact ⟨payload, by rw [hpayload, content?]⟩

/-- A label around a reference to it, and a reference after deferred code that has the label once more. -/
theorem reduce_normal_form_mixed :
    let kept : Code := .deferred (.ref "y") (.mark "x")
    let code : Code := .seq (.label "x" (.seq (.bytes [1]) (.ref "x"))) (.seq kept (.seq (.ref "x") (.mark "z")))
    let rest : Code := .seq (.bytes [1, 5, 0]) (.seq kept (.bytes [5, 0]))
    let placed : PlacedModule := ⟨⟨"a", [], code⟩, .empty, 5, 7⟩
    (code.reduce .empty 5).2 = .ok ⟨rest, 7⟩ ∧ rest.Collapsed ∧ rest.deferredParts = [kept] ∧
      (∀ (other : SymbolTable) (start : Int16), rest.reduce other start = (other, .ok ⟨rest, 7⟩)) ∧
      ∃ final r content,
        placed.module.code.release.reduceAt (.ofSymbols [⟨"y", .defined 9⟩]) placed.base = (final, .ok r) ∧
        r.code.content? = some content ∧ content = [1, 5, 0, 9, 0, 10, 0] := by
  intro kept code rest placed
  have hreduce : (code.reduce .empty 5).2 = .ok ⟨rest, 7⟩ := by decide +kernel
  obtain ⟨-, -, -, hcollapsed, hparts, hagain⟩ := reduce_normal_form.1 _ _ _ _ hreduce
  refine ⟨hreduce, hcollapsed, hparts, hagain, ?_⟩
  have hlast : (placed.module.code.release.reduceAt (.ofSymbols [⟨"y", .defined 9⟩]) placed.base).2 =
      .ok ⟨.bytes [1, 5, 0, 9, 0, 10, 0], 7⟩ := by decide +kernel
  cases hpair : placed.module.code.release.reduceAt (.ofSymbols [⟨"y", .defined 9⟩]) placed.base with
  | mk final outcome =>
    rw [hpair] at hlast
    subst hlast
    obtain ⟨content, hcontent⟩ := reduce_normal_form.2 _ _ _ _ hpair
    exact ⟨final, _, content, rfl, hcontent, (Option.some.inj hcontent).symm⟩

end StackLink.Code
