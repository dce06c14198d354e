import Mathlib.Data.List.Induction
import StackLink.Proofs.Assembly
import StackLink.Proofs.Cells
import StackLink.Proofs.Outcome
import StackLink.Proofs.Regrouping
import StackLink.Trace

/-!
# Manifests that agree with the code

A manifest that is made from a table lists each name once, by first appearance. Where the table has the labels of
the code as pass one finds them, measuring the module again gives back its manifest.
-/
namespace StackLink

/-- The names of a list without repetitions, in the order in which each first appears. -/
structure Appearances (all names : List SymbolName) : Prop where
  nodup : names.Nodup
  mem_iff : ∀ name, name ∈ names ↔ name ∈ all
  ordered : names.Pairwise fun first second => all.idxOf first < all.idxOf second

private theorem pairwise_idxOf_eraseDups (all : List SymbolName) :
    all.eraseDups.Pairwise fun first second => all.idxOf first < all.idxOf second := by
  induction all using List.reverseRecOn with
  | nil => exact .nil
  | append_singleton all name ih =>
    have hold : ∀ first ∈ all.eraseDups, (all ++ [name]).idxOf first = all.idxOf first := by
      intro first hfirst
      exact List.idxOf_append_of_mem (List.mem_eraseDups.mp hfirst)
    have hearlier : all.eraseDups.Pairwise fun first second =>
        (all ++ [name]).idxOf first < (all ++ [name]).idxOf second := by
      refine ih.imp_of_mem ?_
      intro first second hfirst hsecond hlt
      rw [hold first hfirst, hold second hsecond]
      exact hlt
    rw [List.eraseDups_append, List.removeAll]
    by_cases hname : name ∈ all
    · simpa [hname] using hearlier
    · -- a name that is new stands behind all others, as it does in the list
      have hnew : ([name].filter fun x => !all.elem x).eraseDups = [name] := by
        simp [hname, List.eraseDups_cons]
      rw [hnew, List.pairwise_append]
      refine ⟨hearlier, List.pairwise_singleton _ _, ?_⟩
      intro first hfirst second hsecond
      rw [List.mem_singleton] at hsecond
      subst hsecond
      rw [hold first hfirst, List.idxOf_append_of_notMem hname]
      exact Nat.lt_add_right _ (List.idxOf_lt_length_of_mem (List.mem_eraseDups.mp hfirst))

theorem appearances_eraseDups (all : List SymbolName) : Appearances all all.eraseDups := by
  have hordered := pairwise_idxOf_eraseDups all
  refine ⟨hordered.imp ?_, fun name => List.mem_eraseDups, hordered⟩
  intro first second hlt heq
  rw [heq] at hlt
  exact Nat.lt_irrefl _ hlt

namespace Module

/-- The manifest of a module lists these mentions by first appearance and is what measuring its code gives back,
with nothing to warn of. -/
structure Consistent (m : Module) (mentions : List SymbolName) : Prop where
  manifest : Appearances mentions (m.manifest.map Symbol.name)
  measure : m.measure = .ok (.ofSymbols m.manifest, m.code.size)
  events : m.measureEvents = [.measured m.name m.code.size (SymbolTable.ofSymbols m.manifest).size]

section Listed

variable {m : Module} (hfits : m.code.outlier? = none)
  (hlisted : ∀ name binding, Manifest.binding? (m.code.labels.map Label.symbol) name = some binding →
    m.manifest.binding? name = some binding)
include hfits hlisted

/-- Labels that the manifest already has where they are add nothing to it. -/
theorem measure_of_listed : m.measure = .ok (.ofSymbols m.manifest, m.code.size) := by
  have htable : m.table = .ofSymbols m.manifest := by
    apply SymbolTable.ext_binding?
    · intro name
      rw [binding?_table, binding?_eq, SymbolTable.binding?_ofSymbols]
      cases hlabel : Manifest.binding? (m.code.labels.map Label.symbol) name with
      | none => rw [Option.none_or]
      | some binding => rw [Option.some_or, hlisted name binding hlabel]
    · intro name
      rw [definer?_table, SymbolTable.definer?_ofSymbols]
  rw [measure_eq, hfits, htable]

theorem disagreements_of_listed (hnodup : (m.manifest.map Symbol.name).Nodup) : m.disagreements = [] := by
  have hcode : m.measureCode = .ok (.ofSymbols (m.code.labels.map Label.symbol), m.code.size) := by
    rw [measureCode, Code.measure_of_outlier?_eq_none hfits]
  simp only [disagreements, hcode, List.filterMap_eq_nil_iff]
  intro symbol hsymbol
  cases hoffset : symbol.offset? with
  | none => rfl
  | some listed =>
    cases hactual : (SymbolTable.ofSymbols (m.code.labels.map Label.symbol)).offset? symbol.name with
    | none => rfl
    | some actual =>
      have hbinding : symbol.binding = .defined actual := by
        rw [SymbolTable.offset?_eq_some_iff, SymbolTable.binding?_ofSymbols] at hactual
        have hmanifest := hlisted symbol.name _ hactual
        rw [Manifest.binding?_of_nodup hnodup hsymbol] at hmanifest
        exact Option.some.inj hmanifest
      have hsame : listed = actual := by
        rw [Symbol.offset?, hbinding] at hoffset
        exact (Option.some.inj hoffset).symm
      exact if_pos hsame

theorem consistent_of_listed {mentions : List SymbolName} (h : Appearances mentions (m.manifest.map Symbol.name)) :
    m.Consistent mentions := by
  have hmeasure := measure_of_listed hfits hlisted
  refine ⟨h, hmeasure, ?_⟩
  simp only [measureEvents, hmeasure, disagreements_of_listed hfits hlisted h.nodup, List.map_nil, List.nil_append]

end Listed

theorem consistent_of_listing {name : ModuleName} {table : SymbolTable} {mentions : List SymbolName} {code : Code}
    (hfits : code.outlier? = none) (hmentions : code.mentions ⊆ mentions)
    (htable : ∀ symbol binding, Manifest.binding? (code.labels.map Label.symbol) symbol = some binding →
      table.binding? symbol = some binding) :
    Consistent ⟨name, table.listing mentions.eraseDups, code⟩ mentions := by
  apply consistent_of_listed hfits
  · intro symbol binding h
    obtain ⟨label, hlabel, rfl, rfl⟩ := Label.exists_of_binding? h
    have hitem := Item.mem_map_name_labelsFrom_iff.mp (List.mem_map_of_mem hlabel)
    have hmem : label.name ∈ mentions.eraseDups :=
      List.mem_eraseDups.mpr (hmentions (Code.mem_mentions_iff.mpr (.inl hitem)))
    rw [SymbolTable.binding?_listing, if_pos hmem, SymbolTable.offset?_eq_some_iff.mpr (htable _ _ h)]
    rfl
  · rw [SymbolTable.map_name_listing]
    exact appearances_eraseDups mentions

theorem consistent_of_ofCode {name : ModuleName} {code : Code} {m : Module} (h : ofCode name code = .ok m) :
    m.Consistent m.code.mentions := by
  rw [ofCode_eq] at h
  split at h
  · next hfits =>
    cases h
    refine consistent_of_listing hfits (List.Subset.refl _) ?_
    intro symbol binding hbinding
    rw [SymbolTable.binding?_ofSymbols, hbinding]
  · cases h

end Module

namespace Link

theorem mentions_combined (name : ModuleName) (modules : List Module) :
    (combined name modules).code.mentions = modules.flatMap fun m => m.code.mentions := by
  rw [Code.mentions_eq, items_combined, itemsOf, List.filterMap_flatMap]
  simp only [← Code.mentions_eq]

/-- Merging the tables of the parts and measuring their code in one tree lead to the same offsets. -/
theorem consistent_combined (name : ModuleName) {modules : List Module} (h : Mergeable modules) :
    (combined name modules).Consistent (allMentions modules) := by
  have hfits : (combined name modules).code.outlier? = none :=
    outlier?_of_labelsFit (mergeable_combined name h).labelsFit (List.mem_singleton_self _)
  have hmentions : (combined name modules).code.mentions ⊆ allMentions modules := by
    intro symbol hsymbol
    rw [mentions_combined] at hsymbol
    obtain ⟨m, hm, hmention⟩ := List.mem_flatMap.mp hsymbol
    exact List.mem_flatMap.mpr ⟨m, hm, List.mem_append_right _ hmention⟩
  have htable (symbol : SymbolName) (binding : Binding)
      (hbinding : Manifest.binding? ((combined name modules).code.labels.map Label.symbol) symbol = some binding) :
      (merged modules).binding? symbol = some binding := by
    rw [Code.labels, items_combined] at hbinding
    rw [binding?_merged h.definitionsFit]
    exact bindingFrom_of_labels h.definedOnce hbinding
  have hconsistent := @Module.consistent_of_listing name (merged modules) (allMentions modules) _ hfits hmentions htable
  rw [← mentionedNames_eq] at hconsistent
  exact hconsistent

end Link

/-- Modules made of code, of statements or of other modules are consistent. Those made of others also list what the
manifests of these do, whether or not these agree with their code. -/
theorem consistent_of_built (name : ModuleName) :
    (∀ code m, Module.ofCode name code = .ok m → m.code = code ∧ m.Consistent m.code.mentions) ∧
    (∀ statements m, assemble name statements = .ok m → m.Consistent m.code.mentions) ∧
    (∀ modules m, partialLink name modules = .ok m →
      m.code.mentions = modules.flatMap (fun n => n.code.mentions) ∧
      m.Consistent (modules.flatMap fun n => n.manifest.map Symbol.name ++ n.code.mentions)) := by
  refine ⟨?_, ?_, ?_⟩
  · intro code m h
    exact ⟨Module.code_of_ofCode h, Module.consistent_of_ofCode h⟩
  · intro statements m h
    exact Module.consistent_of_ofCode (ofCode_of_assemble h).2
  · intro modules m h
    obtain ⟨hmerge, rfl⟩ := Link.partialLink_eq_ok_iff.mp h
    exact ⟨Link.mentions_combined name modules, Link.consistent_combined name hmerge⟩

/-- The first of two modules labels a name twice and has another offset in its manifest, which also defines a name
of its own. The second refers to its name before the label. -/
theorem consistent_of_built_pair : ∃ made assembled combined,
    Module.ofCode "a" (.seq (.label "x" (.bytes [0])) (.deferred (.ref "y") (.mark "x"))) = .ok made ∧
    assemble "b" [.instruction ⟨.call, "call"⟩ (some ⟨.ident, "y"⟩), .label ⟨.ident, "y"⟩] = .ok assembled ∧
    partialLink "ab" [⟨"a", [⟨"w", .undefined⟩, ⟨"x", .defined 9⟩, ⟨"k", .defined (-1)⟩], made.code⟩, assembled] =
      .ok combined ∧
    combined.manifest = [⟨"w", .undefined⟩, ⟨"x", .defined 3⟩, ⟨"k", .defined (-1)⟩, ⟨"y", .defined 6⟩] ∧
    made.Consistent ["x", "y", "x"] ∧ assembled.Consistent ["y", "y"] ∧
    combined.Consistent ["w", "x", "k", "x", "y", "x", "y", "y", "y"] := by
  have hmade : Module.ofCode "a" (.seq (.label "x" (.bytes [0])) (.deferred (.ref "y") (.mark "x"))) =
      .ok ⟨"a", [⟨"x", .defined 3⟩, ⟨"y", .undefined⟩],
        .seq (.label "x" (.bytes [0])) (.deferred (.ref "y") (.mark "x"))⟩ := by
    decide +kernel
  have hassembled : assemble "b" [.instruction ⟨.call, "call"⟩ (some ⟨.ident, "y"⟩), .label ⟨.ident, "y"⟩] =
      .ok ⟨"b", [⟨"y", .defined 3⟩], .seq (.seq (.bytes [23]) (.ref "y")) (.mark "y")⟩ := by
    decide +kernel
  obtain ⟨combined, hcombined, hmanifest⟩ := exists_of_toOption_map (show (partialLink "ab"
    [⟨"a", [⟨"w", .undefined⟩, ⟨"x", .defined 9⟩, ⟨"k", .defined (-1)⟩],
      .seq (.label "x" (.bytes [0])) (.deferred (.ref "y") (.mark "x"))⟩,
    ⟨"b", [⟨"y", .defined 3⟩], .seq (.seq (.bytes [23]) (.ref "y")) (.mark "y")⟩]).toOption.map Module.manifest =
      some [⟨"w", .undefined⟩, ⟨"x", .defined 3⟩, ⟨"k", .defined (-1)⟩, ⟨"y", .defined 6⟩] by decide +kernel)
  exact ⟨_, _, combined, hmade, hassembled, hcombined, hmanifest,
    ((consistent_of_built "a").1 _ _ hmade).2, (consistent_of_built "b").2.1 _ _ hassembled,
    ((consistent_of_built "ab").2.2 _ _ hcombined).2⟩

end StackLink
