import StackLink.Proofs.PartialLink

/-!
# Combining in stages

A combined module lists the names of its parts by first appearance, each where the parts have it once they are
merged. Neither the order of names nor their places depend on whether some of the parts were combined before.
-/
namespace StackLink

namespace Link

private theorem eraseDups_filter (keep : SymbolName → Bool) (names : List SymbolName) :
    (names.filter keep).eraseDups = names.eraseDups.filter keep := by
  induction names generalizing keep with
  | nil => rfl
  | cons name rest ih =>
    rw [List.eraseDups_cons, ih]
    by_cases hkeep : keep name
    · rw [List.filter_cons_of_pos hkeep, List.filter_cons_of_pos hkeep, List.eraseDups_cons, List.filter_filter, ih,
        ← List.filter_filter, List.filter_comm]
    · have hother (other : SymbolName) : (keep other && !other == name) = keep other := by
        by_cases h : other = name <;> simp_all
      rw [List.filter_cons_of_neg hkeep, List.filter_cons_of_neg hkeep, ih, List.filter_filter]
      simp only [hother]

private theorem eraseDups_eraseDups (names : List SymbolName) : names.eraseDups.eraseDups = names.eraseDups := by
  induction names with
  | nil => rfl
  | cons name rest ih =>
    rw [List.eraseDups_cons, List.eraseDups_cons, eraseDups_filter, eraseDups_filter, eraseDups_filter, ih,
      List.filter_filter]
    simp only [Bool.and_self]

private theorem eraseDups_append_of_subset {first second : List SymbolName} (h : second ⊆ first) :
    (first ++ second).eraseDups = first.eraseDups := by
  have hnone : second.removeAll first = [] := by
    rw [List.removeAll, List.filter_eq_nil_iff]
    intro name hname
    simpa using h hname
  rw [List.eraseDups_append, hnone, List.eraseDups_nil, List.append_nil]

/-- Of two lists with the same first appearances either may stand for the other among further names. -/
private theorem eraseDups_among {first second : List SymbolName} (h : first.eraseDups = second.eraseDups)
    (before after : List SymbolName) :
    (before ++ first ++ after).eraseDups = (before ++ second ++ after).eraseDups := by
  have hmem (name : SymbolName) : name ∈ first ↔ name ∈ second := by
    rw [← List.mem_eraseDups, h, List.mem_eraseDups]
  have helem (name : SymbolName) : (before ++ first).elem name = (before ++ second).elem name := by
    simp [hmem]
  simp only [List.eraseDups_append, List.removeAll, eraseDups_filter, h, helem]

/-- All that modules list and mention, in order and with repetitions. -/
def allMentions (modules : List Module) : List SymbolName :=
  modules.flatMap fun m => m.manifest.map Symbol.name ++ m.code.mentions

theorem mentionedNames_eq (modules : List Module) : mentionedNames modules = (allMentions modules).eraseDups := by
  rw [mentionedNames, allMentions]
  induction modules with
  | nil => rfl
  | cons m rest ih =>
    have hnames : (m.code.symbolNames).eraseDups = m.code.mentions.eraseDups := eraseDups_eraseDups _
    have hrest := eraseDups_among ih (m.manifest.map Symbol.name ++ m.code.symbolNames) []
    rw [List.append_nil, List.append_nil] at hrest
    rw [List.flatMap_cons, List.flatMap_cons, hrest]
    exact eraseDups_among hnames _ _

@[simp] theorem manifest_combined (name : ModuleName) (modules : List Module) :
    (combined name modules).manifest = (merged modules).listing (mentionedNames modules) := rfl

@[simp] theorem items_combined (name : ModuleName) (modules : List Module) :
    (combined name modules).code.items = itemsOf modules :=
  items_deferredCode modules

/-- The combined module mentions in its code only names that it lists. -/
theorem eraseDups_mentions_combined (name : ModuleName) (modules : List Module) :
    ((combined name modules).manifest.map Symbol.name ++ (combined name modules).code.symbolNames).eraseDups =
      mentionedNames modules := by
  have hlisted : (combined name modules).manifest.map Symbol.name = mentionedNames modules :=
    SymbolTable.map_name_listing _ _
  have hmentioned : (combined name modules).code.symbolNames ⊆ mentionedNames modules := by
    intro symbol hsymbol
    rw [Code.symbolNames, List.mem_eraseDups, Code.mem_mentions_iff, items_combined] at hsymbol
    rw [mem_mentionedNames_iff]
    rcases hsymbol with hlabel | href
    · obtain ⟨m, hm, hitem⟩ := List.mem_flatMap.mp hlabel
      exact ⟨m, hm, .inr (.inl hitem)⟩
    · obtain ⟨m, hm, hitem⟩ := List.mem_flatMap.mp href
      exact ⟨m, hm, .inr (.inr hitem)⟩
  rw [hlisted, eraseDups_append_of_subset hmentioned]
  exact eraseDups_eraseDups _

theorem mentionedNames_among_combined (name : ModuleName) (before inner after : List Module) :
    mentionedNames (before ++ [combined name inner] ++ after) = mentionedNames (before ++ inner ++ after) := by
  have happears : (([combined name inner] : List Module).flatMap fun m =>
      m.manifest.map Symbol.name ++ m.code.symbolNames).eraseDups = mentionedNames inner := by
    rw [List.flatMap_singleton]
    exact eraseDups_mentions_combined name inner
  simp only [mentionedNames, List.flatMap_append]
  exact eraseDups_among happears _ _

private theorem offset?_bindingFrom_combined (base : Nat) (name : ModuleName) {modules : List Module}
    (h : Mergeable modules) (symbol : SymbolName) :
    (bindingFrom base symbol [combined name modules]).bind Binding.offset? =
      (bindingFrom base symbol modules).bind Binding.offset? := by
  have hparts : bindingFrom base symbol modules = (bindingFrom 0 symbol modules).map (SymbolTable.moved base) :=
    bindingFrom_add base 0 symbol modules
  rw [bindingFrom, bindingFrom, Binding.join_none_right, hparts]
  rcases binding?_combined name h symbol with heq | ⟨hnone, hundefined, -⟩
  · rw [heq]
  · -- the parts only refer to the name, and listing it as undefined gives it no place
    rw [hnone, hundefined]
    rfl

theorem offset?_bindingFrom_among_combined (name : ModuleName) {before inner after : List Module}
    (h : Mergeable inner) (symbol : SymbolName) :
    (bindingFrom 0 symbol (before ++ [combined name inner] ++ after)).bind Binding.offset? =
      (bindingFrom 0 symbol (before ++ inner ++ after)).bind Binding.offset? := by
  simp only [bindingFrom_append, Binding.join_bind_offset?, offset?_bindingFrom_combined _ name h, codeSize_append,
    (interchangeable_combined name h).codeSize]

theorem mergeable_among_combined_iff (name : ModuleName) {before inner after : List Module} (h : Mergeable inner) :
    Mergeable (before ++ [combined name inner] ++ after) ↔ Mergeable (before ++ inner ++ after) := by
  have hinter := interchangeable_combined name h
  exact ⟨hinter.symm.mergeable h, hinter.mergeable (mergeable_combined name h)⟩

theorem manifest_combined_combined (name group : ModuleName) {before inner after : List Module}
    (hmerge : Mergeable (before ++ inner ++ after)) :
    (combined name (before ++ [combined group inner] ++ after)).manifest =
      (combined name (before ++ inner ++ after)).manifest := by
  have hinner := mergeable_of_among hmerge
  have hstaged := (mergeable_among_combined_iff group hinner).mpr hmerge
  have hoffset (symbol : SymbolName) : (merged (before ++ [combined group inner] ++ after)).offset? symbol =
      (merged (before ++ inner ++ after)).offset? symbol := by
    rw [SymbolTable.offset?_eq, SymbolTable.offset?_eq, binding?_merged hstaged.definitionsFit,
      binding?_merged hmerge.definitionsFit]
    exact offset?_bindingFrom_among_combined group hinner symbol
  rw [manifest_combined, manifest_combined, mentionedNames_among_combined]
  simp only [SymbolTable.listing, hoffset]

theorem items_combined_combined (name group : ModuleName) (before : List Module) {inner : List Module}
    (after : List Module) (h : Mergeable inner) :
    (combined name (before ++ [combined group inner] ++ after)).code.items =
      (combined name (before ++ inner ++ after)).code.items := by
  rw [items_combined, items_combined, (interchangeable_combined group h).itemsOf_among before after]

end Link

/-- Combining some of the modules beforehand changes neither whether the rest can be combined with them nor the
manifest of the result, nor what its code holds from left to right. -/
theorem partialLink_partialLink (before inner after : List Module) (name group : ModuleName) :
    ((∃ direct, partialLink name (before ++ inner ++ after) = .ok direct) ↔
      ∃ combined staged, partialLink group inner = .ok combined ∧
        partialLink name (before ++ [combined] ++ after) = .ok staged) ∧
    ∀ direct combined staged, partialLink name (before ++ inner ++ after) = .ok direct →
      partialLink group inner = .ok combined → partialLink name (before ++ [combined] ++ after) = .ok staged →
      staged.manifest = direct.manifest ∧ staged.code.size = direct.code.size ∧
        staged.code.items = direct.code.items := by
  constructor
  · constructor
    · rintro ⟨direct, hdirect⟩
      obtain ⟨hmerge, -⟩ := Link.partialLink_eq_ok_iff.mp hdirect
      have hinner := Link.mergeable_of_among hmerge
      have hstaged := (Link.mergeable_among_combined_iff group hinner).mpr hmerge
      exact ⟨_, _, Link.partialLink_eq_ok_iff.mpr ⟨hinner, rfl⟩, Link.partialLink_eq_ok_iff.mpr ⟨hstaged, rfl⟩⟩
    · rintro ⟨combined, staged, hcombined, hstaged⟩
      obtain ⟨hinner, rfl⟩ := Link.partialLink_eq_ok_iff.mp hcombined
      obtain ⟨hmerge, -⟩ := Link.partialLink_eq_ok_iff.mp hstaged
      have hdirect := (Link.mergeable_among_combined_iff group hinner).mp hmerge
      exact ⟨_, Link.partialLink_eq_ok_iff.mpr ⟨hdirect, rfl⟩⟩
  · intro direct combined staged hdirect hcombined hstaged
    obtain ⟨hmerge, rfl⟩ := Link.partialLink_eq_ok_iff.mp hdirect
    obtain ⟨hinner, rfl⟩ := Link.partialLink_eq_ok_iff.mp hcombined
    obtain ⟨-, rfl⟩ := Link.partialLink_eq_ok_iff.mp hstaged
    have hitems := Link.items_combined_combined name group before after hinner
    refine ⟨Link.manifest_combined_combined name group hmerge, ?_, hitems⟩
    rw [← Code.span_items, ← Code.span_items, hitems]

/-- The two modules of the group refer to a name that only a module behind them defines, and to one that only a
manifest defines. -/
theorem partialLink_partialLink_pair : ∃ direct combined staged,
    partialLink "all" [⟨"m", [⟨"w", .undefined⟩], .ref "y"⟩,
      ⟨"a", [⟨"x", .defined (-1)⟩], .deferred (.ref "z") (.mark "y")⟩, ⟨"b", [], .seq (.ref "x") (.bytes [])⟩,
      ⟨"c", [], .mark "z"⟩] = .ok direct ∧
    partialLink "ab" [⟨"a", [⟨"x", .defined (-1)⟩], .deferred (.ref "z") (.mark "y")⟩,
      ⟨"b", [], .seq (.ref "x") (.bytes [])⟩] = .ok combined ∧
    partialLink "all" [⟨"m", [⟨"w", .undefined⟩], .ref "y"⟩, combined, ⟨"c", [], .mark "z"⟩] = .ok staged ∧
    staged.manifest = [⟨"w", .undefined⟩, ⟨"y", .defined 4⟩, ⟨"x", .defined 1⟩, ⟨"z", .defined 6⟩] ∧
    staged.code.items = [.ref "y", .ref "z", .label "y", .ref "x", .label "z"] ∧ staged.code ≠ direct.code := by
  have hlaws := partialLink_partialLink [⟨"m", [⟨"w", .undefined⟩], .ref "y"⟩]
    [⟨"a", [⟨"x", .defined (-1)⟩], .deferred (.ref "z") (.mark "y")⟩, ⟨"b", [], .seq (.ref "x") (.bytes [])⟩]
    [⟨"c", [], .mark "z"⟩] "all" "ab"
  obtain ⟨combined, staged, hcombined, hstaged⟩ := hlaws.1.mp ⟨_, rfl⟩
  obtain ⟨hmanifest, -, hitems⟩ := hlaws.2 _ combined staged rfl hcombined hstaged
  refine ⟨_, combined, staged, rfl, hcombined, hstaged, hmanifest.trans (by decide +kernel), hitems, ?_⟩
  cases hcombined
  cases hstaged
  decide

end StackLink
