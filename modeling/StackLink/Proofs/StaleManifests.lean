import StackLink.Proofs.Alike
import StackLink.Proofs.Appending

/-!
# Manifests that the code overrides

What a module defines is told by its code and, for names that the code does not bind, by the last word of its
manifest. Whatever else a manifest says, be it out of date, repeated or a mere mention, a link comes out the same.
-/
namespace StackLink

/-- Where the last symbol of a name has it, if that symbol is defined. -/
def Manifest.offset? (manifest : Manifest) (name : SymbolName) : Option Int16 :=
  (manifest.binding? name).bind Binding.offset?

/-- Modules with the same code, whose manifests agree on where the names are that the code does not bind. -/
structure Module.SameCode (m n : Module) : Prop where
  name : n.name = m.name
  code : n.code = m.code
  manifest : ∀ symbol, symbol ∉ m.code.labels.map Label.name → n.manifest.offset? symbol = m.manifest.offset? symbol

theorem Module.SameCode.sameDefinitions {m n : Module} (h : SameCode m n) : SameDefinitions m n := by
  refine ⟨h.name, congrArg Code.size h.code, ?_⟩
  intro symbol
  by_cases hbound : symbol ∈ m.code.labels.map Label.name
  · -- the code has the last word, and the manifests are not asked
    have hbinding : Manifest.binding? (m.code.labels.map Label.symbol) symbol ≠ none := by
      rw [ne_eq, Manifest.binding?_eq_none_iff, List.map_map]
      exact not_not.mpr hbound
    obtain ⟨binding, hbinding⟩ := Option.ne_none_iff_exists'.mp hbinding
    rw [offset?, offset?, binding?_eq, binding?_eq, h.code, hbinding, Option.some_or, Option.some_or]
  · have hother : symbol ∉ n.code.labels.map Label.name := by rwa [h.code]
    rw [offset?, offset?, binding?_of_not_mem_labels hbound, binding?_of_not_mem_labels hother]
    exact h.manifest symbol hbound

namespace Link

variable {first second : List Module} (h : List.Forall₂ Module.SameCode first second)
include h

theorem sameDefinitions_of_sameCode : List.Forall₂ Module.SameDefinitions first second :=
  h.imp fun _ _ hm => hm.sameDefinitions

/-- Whatever goes by names and code alone is the same for both. -/
private theorem map_of_sameCode :
    (second.map fun n => (n.name, n.code)) = first.map fun m => (m.name, m.code) := by
  induction h with
  | nil => rfl
  | cons hm _ ih => rw [List.map_cons, List.map_cons, hm.name, hm.code, ih]

theorem itemsOf_of_sameCode : itemsOf second = itemsOf first := by
  have heq (modules : List Module) :
      itemsOf modules = (modules.map fun m => (m.name, m.code)).flatMap fun part => part.2.items := by
    rw [List.flatMap_map]
    rfl
  rw [heq, heq, map_of_sameCode h]

theorem outliers_of_sameCode : second.filterMap outlierError? = first.filterMap outlierError? := by
  have heq (modules : List Module) : modules.filterMap outlierError? =
      (modules.map fun m => (m.name, m.code)).filterMap fun part =>
        part.2.outlier?.map fun label => .outOfRange label.name part.1 label.position .measure := by
    rw [List.filterMap_map]
    rfl
  rw [heq, heq, map_of_sameCode h]

theorem unresolved_of_sameCode : unresolved second = unresolved first := by
  have hdefined := any_offset?_of_sameDefinitions (sameDefinitions_of_sameCode h)
  have heq (modules : List Module) (missing : SymbolName → Bool) :
      (modules.flatMap fun m => (m.code.refs.filter missing).map fun name => LinkError.unresolved name m.name) =
        (modules.map fun m => (m.name, m.code)).flatMap fun part =>
          (part.2.refs.filter missing).map fun name => .unresolved name part.1 := by
    rw [List.flatMap_map]
  simp only [unresolved, hdefined]
  rw [heq, heq, map_of_sameCode h]

theorem bytes_of_sameCode (hmerge : Mergeable first) (hresolved : Resolved first) :
    (filled second).bytes = (filled first).bytes := by
  have hmerged := merged_of_sameDefinitions (sameDefinitions_of_sameCode h)
  have hbytes := bytes_run_of_extends hmerge hresolved fun name _ hoffset => (hmerged.offset? name).trans hoffset
  rwa [← itemsOf_of_sameCode h] at hbytes

end Link

/-- Modules with the same names and code, whose manifests define alike each name that the code does not bind, link
to the same bytes, placements, definitions and definers, or fail with the same errors. -/
theorem link_of_sameCode {first second : List Module} (h : List.Forall₂ Module.SameCode first second) :
    (∃ image other, link first = .ok image ∧ link second = .ok other ∧ other.bytes = image.bytes ∧
      other.placements = image.placements ∧
      ∀ name, other.symbols.offset? name = image.symbols.offset? name ∧
        other.symbols.definer? name = image.symbols.definer? name) ∨
    ∃ failure, link first = .error failure ∧ link second = .error failure := by
  have hsame := Link.sameDefinitions_of_sameCode h
  rcases Link.mergeable_or_rejected_of_sameDefinitions hsame (Link.outliers_of_sameCode h) with
    ⟨hmerge, hother⟩ | ⟨failure, hrejected, hother⟩
  · rw [Link.link_of_mergeable hmerge, Link.link_of_mergeable hother, Link.unresolved_of_sameCode h]
    cases hunresolved : Link.unresolved first with
    | cons error errors => exact .inr ⟨_, rfl, rfl⟩
    | nil =>
      have hmerged := Link.merged_of_sameDefinitions hsame
      refine .inl ⟨_, _, rfl, rfl, ?_, ?_, ?_⟩
      · exact Link.bytes_of_sameCode h hmerge (Link.unresolved_eq_nil_iff.mp hunresolved)
      · exact Link.placements_of_sameDefinitions hsame 0
      · intro name
        simp only [Link.imageOf, hmerge.table_filled, hother.table_filled]
        exact ⟨hmerged.offset? name, hmerged.definer? name⟩
  · exact .inr ⟨failure, Link.link_of_rejected hrejected, Link.link_of_rejected hother⟩

/-- The manifests differ in offsets of labels, in mentions, in order and in repeated entries. With either of them the
link goes well, and it fails alike once a third module defines a name again. -/
theorem link_of_sameCode_pair :
    let code : Code := .seq (.bytes [7]) (.label "x" (.deferred (.ref "y") (.ref "z")))
    let a : Module := ⟨"a", [⟨"x", .defined 1⟩, ⟨"z", .defined 9⟩], code⟩
    let stale : Module := ⟨"a", [⟨"w", .undefined⟩, ⟨"z", .undefined⟩, ⟨"z", .defined 9⟩, ⟨"x", .defined 32767⟩,
      ⟨"y", .undefined⟩], code⟩
    let b : Module := ⟨"b", [⟨"y", .defined 0⟩], .mark "y"⟩
    let bare : Module := ⟨"b", [], .mark "y"⟩
    let c : Module := ⟨"c", [⟨"z", .defined 0⟩], .bytes []⟩
    (∃ image other, link [a, b] = .ok image ∧ link [stale, bare] = .ok other ∧ image.bytes = [7, 5, 0, 9, 0] ∧
      other.bytes = image.bytes ∧ other.placements = image.placements ∧
      other.symbols.offset? "x" = image.symbols.offset? "x" ∧ other.symbols ≠ image.symbols) ∧
    ∃ failure, link [a, b, c] = .error failure ∧ link [stale, bare, c] = .error failure := by
  intro code a stale b bare c
  have ha : Module.SameCode a stale := by
    refine ⟨rfl, rfl, ?_⟩
    intro symbol hsymbol
    have hx : "x" ≠ symbol := fun hx => hsymbol (hx ▸ by decide)
    by_cases hz : "z" = symbol
    · subst hz
      rfl
    · by_cases hy : "y" = symbol <;> by_cases hw : "w" = symbol <;>
        simp [a, stale, Manifest.offset?, Manifest.binding?, Binding.offset?, hx, hy, hz, hw]
  have hb : Module.SameCode b bare := by
    refine ⟨rfl, rfl, ?_⟩
    intro symbol hsymbol
    have hy : "y" ≠ symbol := fun hy => hsymbol (hy ▸ by decide)
    simp [b, bare, Manifest.offset?, Manifest.binding?, hy]
  have hc : Module.SameCode c c := ⟨rfl, rfl, fun _ _ => rfl⟩
  constructor
  · have hfirst : (link [a, b]).toOption.map (fun image => (image.bytes, image.symbols.get? "w")) =
        some ([7, 5, 0, 9, 0], none) := by decide +kernel
    have hsecond : (link [stale, bare]).toOption.map (fun other => other.symbols.get? "w") =
        some (some ⟨"w", .undefined⟩) := by decide +kernel
    obtain ⟨image, himage, hseen⟩ := exists_of_toOption_map hfirst
    obtain ⟨other, hother, hotherSeen⟩ := exists_of_toOption_map hsecond
    obtain ⟨hbytes, hnone⟩ := Prod.mk.inj hseen
    rcases link_of_sameCode (.cons ha (.cons hb .nil)) with hok | ⟨failure, hfailure, -⟩
    · obtain ⟨image', other', himage', hother', hsame, hplacements, hsymbols⟩ := hok
      cases himage.symm.trans himage'
      cases hother.symm.trans hother'
      refine ⟨image, other, himage, hother, hbytes, hsame, hplacements, (hsymbols "x").1, ?_⟩
      intro heq
      rw [heq, hnone] at hotherSeen
      cases hotherSeen
    · rw [himage] at hfailure
      cases hfailure
  · have herror : (link [a, b, c]).toOption.isNone := by decide +kernel
    rcases link_of_sameCode (.cons ha (.cons hb (.cons hc .nil))) with ⟨image, _, himage, -⟩ | hfailure
    · rw [himage] at herror
      cases herror
    · exact hfailure

end StackLink
