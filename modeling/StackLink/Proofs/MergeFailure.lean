import Mathlib.Data.List.Induction
import StackLink.Proofs.PartialLink

/-!
# What a failed merge reports

A merge reports every definition that is out of range. A module that has one is not merged, so that names are
compared only between the modules whose definitions are all in range: of these, every one that defines a name
after the first is reported.
-/
namespace StackLink

namespace Link

private theorem mergeFrom_append (table : SymbolTable) (first second : List PlacedModule) :
    mergeFrom table (first ++ second) =
      ((mergeFrom (mergeFrom table first).1 second).1,
        (mergeFrom table first).2 ++ (mergeFrom (mergeFrom table first).1 second).2) := by
  induction first generalizing table with
  | nil => rfl
  | cons placed rest ih =>
    rw [List.cons_append, mergeFrom, mergeFrom]
    cases absolute placed with
    | ok symbols => simp [ih]
    | error errors => simp [ih]

private theorem mergeFrom_concat (modules : List Module) (m : Module) :
    mergeFrom .empty ((layoutFrom 0 (modules ++ [m])).map placedAt) =
      ((mergeFrom (merged modules) [placedAt (codeSize modules, m)]).1,
        mergeErrors modules ++ (mergeFrom (merged modules) [placedAt (codeSize modules, m)]).2) := by
  rw [layoutFrom_append, Nat.zero_add, List.map_append, mergeFrom_append]
  rfl

theorem merged_concat_of_fitsAt {modules : List Module} {m : Module} (h : m.table.FitsAt (codeSize modules)) :
    merged (modules ++ [m]) = (merged modules).merge (m.table.shifted (codeSize modules)) m.name := by
  rw [merged, mergeFrom_concat, mergeFrom_of_fitsAt h]
  rfl

theorem merged_concat_of_not_fitsAt {modules : List Module} {m : Module} (h : ¬m.table.FitsAt (codeSize modules)) :
    merged (modules ++ [m]) = merged modules := by
  rw [merged, mergeFrom_concat, mergeFrom_of_not_fitsAt h]
  rfl

theorem mergeErrors_concat_of_fitsAt {modules : List Module} {m : Module} (h : m.table.FitsAt (codeSize modules)) :
    mergeErrors (modules ++ [m]) =
      mergeErrors modules ++ (merged modules).collisions (m.table.shifted (codeSize modules)) m.name := by
  rw [mergeErrors, mergeFrom_concat, mergeFrom_of_fitsAt h]
  simp [mergeFrom]

theorem mergeErrors_concat_of_not_fitsAt {modules : List Module} {m : Module}
    (h : ¬m.table.FitsAt (codeSize modules)) :
    mergeErrors (modules ++ [m]) = mergeErrors modules ++ m.table.outOfRange (codeSize modules) m.name := by
  rw [mergeErrors, mergeFrom_concat, mergeFrom_of_not_fitsAt h]
  simp [mergeFrom]

def fitting? (placed : Nat × Module) : Option Module :=
  if placed.2.table.outOfRange placed.1 placed.2.name = [] then some placed.2 else none

/-- The modules whose definitions are all in range where they lie. -/
def inRange (modules : List Module) : List Module :=
  (layoutFrom 0 modules).filterMap fitting?

theorem fitting?_of_fitsAt {base : Nat} {m : Module} (h : m.table.FitsAt base) : fitting? (base, m) = some m :=
  if_pos (SymbolTable.outOfRange_eq_nil_iff.mpr h)

theorem fitting?_of_not_fitsAt {base : Nat} {m : Module} (h : ¬m.table.FitsAt base) : fitting? (base, m) = none :=
  if_neg (mt SymbolTable.outOfRange_eq_nil_iff.mp h)

private theorem inRange_append (first second : List Module) :
    inRange (first ++ second) = inRange first ++ (layoutFrom (codeSize first) second).filterMap fitting? := by
  rw [inRange, layoutFrom_append, Nat.zero_add, List.filterMap_append]
  rfl

theorem inRange_concat_of_fitsAt {modules : List Module} {m : Module} (h : m.table.FitsAt (codeSize modules)) :
    inRange (modules ++ [m]) = inRange modules ++ [m] := by
  rw [inRange_append, layoutFrom, List.filterMap_cons_some (fitting?_of_fitsAt h)]
  rfl

theorem inRange_concat_of_not_fitsAt {modules : List Module} {m : Module} (h : ¬m.table.FitsAt (codeSize modules)) :
    inRange (modules ++ [m]) = inRange modules := by
  rw [inRange_append, layoutFrom, List.filterMap_cons_none (fitting?_of_not_fitsAt h)]
  exact List.append_nil _

theorem mem_inRange {modules : List Module} {k : Nat} {m : Module} (hm : modules[k]? = some m)
    (h : m.table.FitsAt (codeSize (modules.take k))) : m ∈ inRange modules :=
  List.mem_filterMap.mpr ⟨_, mem_layoutFrom_of_getElem? hm, fitting?_of_fitsAt h⟩

theorem exists_inRange_eq_append {modules : List Module} {k : Nat} {m : Module} (hm : modules[k]? = some m)
    (h : m.table.FitsAt (codeSize (modules.take k))) :
    ∃ after, inRange modules = inRange (modules.take k) ++ m :: after := by
  obtain ⟨hk, rfl⟩ := List.getElem?_eq_some_iff.mp hm
  have hsplit : modules = modules.take k ++ modules[k] :: modules.drop (k + 1) := by
    rw [List.getElem_cons_drop, List.take_append_drop]
  have hinRange := inRange_append (modules.take k) (modules[k] :: modules.drop (k + 1))
  rw [← hsplit, layoutFrom, List.filterMap_cons_some (fitting?_of_fitsAt h)] at hinRange
  exact ⟨_, hinRange⟩

/-- The merged table knows which of the modules in range is the first to define a name. -/
theorem definer?_merged_inRange (modules : List Module) (name : SymbolName) :
    (merged modules).definer? name = definer? name (inRange modules) ∧
      ((merged modules).offset? name).isSome = (definer? name (inRange modules)).isSome := by
  induction modules using List.reverseRecOn with
  | nil => simp [merged, inRange, layoutFrom, mergeFrom, definer?, SymbolTable.offset?_eq]
  | append_singleton modules m ih =>
    obtain ⟨hdefiner, hoffset⟩ := ih
    by_cases h : m.table.FitsAt (codeSize modules)
    · rw [merged_concat_of_fitsAt h, inRange_concat_of_fitsAt h, SymbolTable.definer?_merge, SymbolTable.offset?_merge,
        definer?_append, definer?_singleton, Option.isSome_or, isSome_offset?_shifted, hdefiner, hoffset]
      -- the module becomes the definer unless one before it is
      cases hfirst : definer? name (inRange modules) with
      | some first =>
        have hdefined : (merged modules).offset? name ≠ none := by
          rw [← Option.isSome_iff_ne_none, hoffset, hfirst, Option.isSome_some]
        simp [hdefined]
      | none =>
        have hundefined : (merged modules).offset? name = none := by
          rw [← Option.not_isSome_iff_eq_none, hoffset, hfirst]
          exact Bool.false_ne_true
        by_cases hm : (m.offset? name).isSome <;> simp [hundefined, hm]
    · rw [merged_concat_of_not_fitsAt h, inRange_concat_of_not_fitsAt h]
      exact ⟨hdefiner, hoffset⟩

/-- What is wrong with modules that cannot be merged. -/
inductive MergeProblem (modules : List Module) : LinkError → Prop where
  /-- A definition is out of range where its module lies. -/
  | outOfRange {base : Nat} {m : Module} {name : SymbolName} {offset : Int16}
    (hplaced : (base, m) ∈ layoutFrom 0 modules) (hoffset : m.offset? name = some offset)
    (hfits : ¬Offset.Fits (base + offset.toInt)) :
    MergeProblem modules (.outOfRange name m.name (base + offset.toInt) .merge)
  /-- A module in range defines a name that one before it, also in range, has defined. -/
  | multipleDefinition {before after : List Module} {m : Module} {name : SymbolName} {first : ModuleName}
    (hmodules : inRange modules = before ++ m :: after) (hdefines : (m.offset? name).isSome)
    (hfirst : definer? name before = some first) :
    MergeProblem modules (.multipleDefinition name first m.name)

private theorem mem_collisions_merged_iff {modules : List Module} {m : Module} {base : Int} {error : LinkError} :
    error ∈ (merged modules).collisions (m.table.shifted base) m.name ↔
      ∃ name first, (m.offset? name).isSome ∧ definer? name (inRange modules) = some first ∧
        error = .multipleDefinition name first m.name := by
  rw [SymbolTable.mem_collisions_iff]
  constructor
  · rintro ⟨name, hm, hdefined, rfl⟩
    obtain ⟨hdefiner, hoffset⟩ := definer?_merged_inRange modules name
    rw [hoffset, Option.isSome_iff_exists] at hdefined
    obtain ⟨first, hfirst⟩ := hdefined
    rw [isSome_offset?_shifted] at hm
    exact ⟨name, first, hm, hfirst, by rw [hdefiner, hfirst, Option.getD_some]⟩
  · rintro ⟨name, first, hm, hfirst, rfl⟩
    obtain ⟨hdefiner, hoffset⟩ := definer?_merged_inRange modules name
    refine ⟨name, ?_, ?_, ?_⟩
    · rwa [isSome_offset?_shifted]
    · rw [hoffset, hfirst, Option.isSome_some]
    · rw [hdefiner, hfirst, Option.getD_some]

private theorem MergeProblem.concat {modules : List Module} {error : LinkError} (h : MergeProblem modules error)
    (m : Module) : MergeProblem (modules ++ [m]) error := by
  cases h with
  | outOfRange hplaced hoffset hfits =>
    have hlater := layoutFrom_append 0 modules [m] ▸ List.mem_append_left _ hplaced
    exact .outOfRange hlater hoffset hfits
  | @multipleDefinition before after other name first hmodules hdefines hfirst =>
    by_cases hm : m.table.FitsAt (codeSize modules)
    · have hlater : inRange (modules ++ [m]) = before ++ other :: (after ++ [m]) := by
        rw [inRange_concat_of_fitsAt hm, hmodules, List.append_assoc, List.cons_append]
      exact .multipleDefinition hlater hdefines hfirst
    · exact .multipleDefinition ((inRange_concat_of_not_fitsAt hm).trans hmodules) hdefines hfirst

private theorem mergeProblem_concat_of_fitsAt {modules : List Module} {m : Module}
    (h : m.table.FitsAt (codeSize modules)) {error : LinkError} :
    MergeProblem (modules ++ [m]) error ↔ MergeProblem modules error ∨
      error ∈ (merged modules).collisions (m.table.shifted (codeSize modules)) m.name := by
  rw [mem_collisions_merged_iff]
  constructor
  · intro hproblem
    cases hproblem with
    | outOfRange hplaced hoffset hfits =>
      rw [layoutFrom_append, List.mem_append, Nat.zero_add] at hplaced
      rcases hplaced with hplaced | hplaced
      · exact .inl (.outOfRange hplaced hoffset hfits)
      · cases List.mem_singleton.mp hplaced
        exact absurd (fitsAt_table_iff.mp h _ _ hoffset) hfits
    | @multipleDefinition before after other name first hmodules hdefines hfirst =>
      rw [inRange_concat_of_fitsAt h] at hmodules
      -- the new module is the second one, or the problem was there before it
      rcases List.eq_nil_or_concat after with rfl | ⟨front, last, rfl⟩
      · obtain ⟨rfl, hsame⟩ := List.append_inj' hmodules rfl
        cases hsame
        exact .inr ⟨name, first, hdefines, hfirst, rfl⟩
      · rw [List.concat_eq_append, ← List.cons_append, ← List.append_assoc] at hmodules
        exact .inl (.multipleDefinition (List.append_inj' hmodules rfl).1 hdefines hfirst)
  · rintro (hproblem | ⟨name, first, hdefines, hfirst, rfl⟩)
    · exact hproblem.concat m
    · exact .multipleDefinition (inRange_concat_of_fitsAt h) hdefines hfirst

private theorem mergeProblem_concat_of_not_fitsAt {modules : List Module} {m : Module}
    (h : ¬m.table.FitsAt (codeSize modules)) {error : LinkError} :
    MergeProblem (modules ++ [m]) error ↔ MergeProblem modules error ∨
      error ∈ m.table.outOfRange (codeSize modules) m.name := by
  have hlayout : layoutFrom 0 (modules ++ [m]) = layoutFrom 0 modules ++ [(codeSize modules, m)] := by
    rw [layoutFrom_append, Nat.zero_add]
    rfl
  rw [SymbolTable.mem_outOfRange_iff]
  constructor
  · intro hproblem
    cases hproblem with
    | @outOfRange base other name offset hplaced hoffset hfits =>
      rw [hlayout, List.mem_append] at hplaced
      rcases hplaced with hplaced | hplaced
      · exact .inl (.outOfRange hplaced hoffset hfits)
      · cases List.mem_singleton.mp hplaced
        exact .inr ⟨name, offset, (Module.offset?_table m name).trans hoffset, hfits, rfl⟩
    | multipleDefinition hmodules hdefines hfirst =>
      exact .inl (.multipleDefinition ((inRange_concat_of_not_fitsAt h).symm.trans hmodules) hdefines hfirst)
  · rintro (hproblem | ⟨name, offset, hoffset, hfits, rfl⟩)
    · exact hproblem.concat m
    · have hplaced : (codeSize modules, m) ∈ layoutFrom 0 (modules ++ [m]) := by
        rw [hlayout]
        exact List.mem_append_right _ List.mem_cons_self
      exact .outOfRange hplaced ((Module.offset?_table m name).symm.trans hoffset) hfits

theorem mem_mergeErrors_iff {modules : List Module} {error : LinkError} :
    error ∈ mergeErrors modules ↔ MergeProblem modules error := by
  induction modules using List.reverseRecOn with
  | nil =>
    constructor
    · intro h
      cases h
    · intro h
      cases h with
      | outOfRange hplaced => cases hplaced
      | multipleDefinition hmodules => simp [inRange, layoutFrom] at hmodules
  | append_singleton modules m ih =>
    by_cases h : m.table.FitsAt (codeSize modules)
    · rw [mergeErrors_concat_of_fitsAt h, List.mem_append, ih, mergeProblem_concat_of_fitsAt h]
    · rw [mergeErrors_concat_of_not_fitsAt h, List.mem_append, ih, mergeProblem_concat_of_not_fitsAt h]

theorem phase_of_mem_outliers {modules : List Module} {error : LinkError}
    (h : error ∈ modules.filterMap outlierError?) : error.phase = .measure := by
  obtain ⟨m, -, herror⟩ := List.mem_filterMap.mp h
  obtain ⟨label, -, rfl⟩ := Option.map_eq_some_iff.mp herror
  rfl

private theorem phase_eq_of_phase? {errors : List LinkError} {phase found : Phase}
    (h : ∀ error ∈ errors, error.phase = phase) (hfound : LinkFailure.phase? ⟨errors⟩ = some found) :
    found = phase := by
  obtain ⟨error, herror, rfl⟩ := Option.map_eq_some_iff.mp hfound
  exact h error (List.mem_of_mem_head? herror)

/-- A link that fails in the merge reports what merging finds, since the errors of a phase bear its name. -/
theorem eq_mergeErrors_of_link {modules : List Module} {failure : LinkFailure}
    (h : link modules = .error failure) (hphase : failure.phase? = some .merge) :
    failure = ⟨mergeErrors modules⟩ := by
  rcases mergeable_or_rejected modules with hmergeable | ⟨other, hrejected⟩
  · rw [link_of_mergeable hmergeable] at h
    cases hunresolved : unresolved modules with
    | nil =>
      rw [hunresolved] at h
      cases h
    | cons error errors =>
      rw [hunresolved] at h
      cases h
      rw [← hunresolved] at hphase
      exact absurd (phase_eq_of_phase? (fun _ => phase_of_mem_unresolved) hphase) (by decide)
  · rw [link_of_rejected hrejected] at h
    cases h
    cases hrejected with
    | labels _ => exact absurd (phase_eq_of_phase? (fun _ => phase_of_mem_outliers) hphase) (by decide)
    | merge _ _ => rfl

end Link

/-- A link that fails in the merge reports each definition out of range and, of the modules in range, each that
defines a name after the first; and nothing else. So a module that defines a name again is reported if it and a
module before it that defines the name are in range. -/
theorem link_merge_failure {modules : List Module} {failure : LinkFailure} (h : link modules = .error failure)
    (hphase : failure.phase? = some .merge) :
    (∀ error, error ∈ failure.errors ↔ Link.MergeProblem modules error) ∧
    ∀ (i j : Nat) (m n : Module) (name : SymbolName), i < j → modules[i]? = some m → modules[j]? = some n →
      m.table.FitsAt (Link.codeSize (modules.take i)) → n.table.FitsAt (Link.codeSize (modules.take j)) →
      (m.offset? name).isSome → (n.offset? name).isSome →
      ∃ first, .multipleDefinition name first n.name ∈ failure.errors := by
  obtain rfl := Link.eq_mergeErrors_of_link h hphase
  refine ⟨fun error => Link.mem_mergeErrors_iff, ?_⟩
  intro i j m n name hij hm hn hmfits hnfits hmdefines hndefines
  obtain ⟨after, hsplit⟩ := Link.exists_inRange_eq_append hn hnfits
  have hearlier : (modules.take j)[i]? = some m := by
    rw [List.getElem?_take_of_lt hij]
    exact hm
  have htake : (modules.take j).take i = modules.take i := by
    rw [List.take_take, Nat.min_eq_left (Nat.le_of_lt hij)]
  have hdefines : Link.Defines (Link.inRange (modules.take j)) name :=
    ⟨m, Link.mem_inRange hearlier (htake ▸ hmfits), hmdefines⟩
  obtain ⟨first, hfirst⟩ := Option.ne_none_iff_exists'.mp (mt Link.definer?_eq_none_iff.mp (not_not.mpr hdefines))
  exact ⟨first, Link.mem_mergeErrors_iff.mpr (.multipleDefinition hsplit hndefines hfirst)⟩

/-- The second module has a definition out of range. The two after it define again what the first does. -/
theorem link_merge_failure_four :
    let modules : List Module := [⟨"a", [⟨"x", .defined 0⟩], .bytes [0]⟩, ⟨"b", [⟨"y", .defined 32767⟩], .bytes []⟩,
      ⟨"c", [⟨"x", .defined 5⟩], .bytes []⟩, ⟨"d", [], .mark "x"⟩]
    ∃ failure, link modules = .error failure ∧ failure.phase? = some .merge ∧
      .outOfRange "y" "b" 32768 .merge ∈ failure.errors ∧
      ∃ first, .multipleDefinition "x" first "d" ∈ failure.errors := by
  intro modules
  have hlink : link modules = .error ⟨[.outOfRange "y" "b" 32768 .merge, .multipleDefinition "x" "a" "c",
      .multipleDefinition "x" "a" "d"]⟩ := by decide +kernel
  obtain ⟨herrors, hagain⟩ := link_merge_failure hlink rfl
  have hfirst : (⟨"a", [⟨"x", .defined 0⟩], .bytes [0]⟩ : Module).table.FitsAt (0 : Nat) :=
    SymbolTable.outOfRange_eq_nil_iff.mp (show SymbolTable.outOfRange _ _ "a" = [] by decide +kernel)
  have hlast : (⟨"d", [], .mark "x"⟩ : Module).table.FitsAt (1 : Nat) :=
    SymbolTable.outOfRange_eq_nil_iff.mp (show SymbolTable.outOfRange _ _ "d" = [] by decide +kernel)
  have hproblem : Link.MergeProblem modules (.outOfRange "y" "b" 32768 .merge) :=
    @Link.MergeProblem.outOfRange modules 1 ⟨"b", [⟨"y", .defined 32767⟩], .bytes []⟩ "y" 32767
      (List.mem_cons_of_mem _ List.mem_cons_self) rfl (by decide)
  exact ⟨_, hlink, rfl, (herrors _).mpr hproblem, hagain 0 3 _ _ "x" (by decide) rfl rfl hfirst hlast rfl rfl⟩

/-- The second module defines again what the first does and is not reported for it, since it has another
definition out of range. -/
theorem link_merge_failure_incomplete :
    let modules : List Module := [⟨"a", [⟨"x", .defined 0⟩], .bytes [0]⟩,
      ⟨"b", [⟨"x", .defined 0⟩, ⟨"y", .defined 32767⟩], .bytes []⟩]
    (∀ m ∈ modules, m.measure.toBool) ∧ (∀ m ∈ modules, (m.offset? "x").isSome) ∧
      ∃ failure, link modules = .error failure ∧ failure.phase? = some .merge ∧
        ∀ first, .multipleDefinition "x" first "b" ∉ failure.errors := by
  intro modules
  have hlink : link modules = .error ⟨[.outOfRange "y" "b" 32768 .merge]⟩ := by decide +kernel
  refine ⟨by decide +kernel, by decide +kernel, _, hlink, rfl, ?_⟩
  intro first hmem
  cases List.mem_singleton.mp hmem

end StackLink
