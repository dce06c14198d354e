import StackLink.Proofs.LinkOutcome

/-!
# Linking in stages

Combining modules keeps their items in order, and the combined module says of each name what its parts say
together. So linking the parts and linking the combined module in their place come to the same.
-/
namespace StackLink

namespace Code

theorem mem_mentions_iff {code : Code} {name : SymbolName} :
    name ∈ code.mentions ↔ .label name ∈ code.items ∨ .ref name ∈ code.items := by
  induction code with
  | bytes payload => by_cases h : payload = [] <;> simp [mentions, items, h]
  | ref other => simp [mentions, items]
  | label other inner ih => simp [mentions, items, ih, or_assoc]
  | seq first second ihf ihs | deferred first second ihf ihs =>
    simp only [mentions, items, List.mem_append, ihf, ihs]
    exact or_or_or_comm

end Code

namespace Link

theorem items_deferredCode (modules : List Module) : (deferredCode modules).items = itemsOf modules := by
  have fold (rest : List Module) (code : Code) :
      (rest.foldl (fun code next => .deferred code next.code) code).items = code.items ++ itemsOf rest := by
    induction rest generalizing code with
    | nil => simp [itemsOf]
    | cons m rest ih => simp [ih, Code.items, itemsOf]
  cases modules with
  | nil => rfl
  | cons m rest => exact fold rest m.code

theorem mem_mentionedNames_iff {modules : List Module} {name : SymbolName} :
    name ∈ mentionedNames modules ↔
      ∃ m ∈ modules, name ∈ m.manifest.map Symbol.name ∨ .label name ∈ m.code.items ∨ .ref name ∈ m.code.items := by
  simp only [mentionedNames, List.mem_eraseDups, List.mem_flatMap, List.mem_append, Code.symbolNames,
    Code.mem_mentions_iff]

def combined (name : ModuleName) (modules : List Module) : Module :=
  ⟨name, (merged modules).listing (mentionedNames modules), deferredCode modules⟩

theorem partialLink_of_rejected (name : ModuleName) {modules : List Module} {failure : LinkFailure}
    (h : Rejected modules failure) : partialLink name modules = .error failure :=
  h.bind _

theorem partialLink_of_mergeable (name : ModuleName) {modules : List Module} (h : Mergeable modules) :
    partialLink name modules = .ok (combined name modules) :=
  h.bind _

theorem partialLink_eq_ok_iff {name : ModuleName} {modules : List Module} {result : Module} :
    partialLink name modules = .ok result ↔ Mergeable modules ∧ result = combined name modules := by
  constructor
  · intro h
    rcases mergeable_or_rejected modules with hmergeable | ⟨failure, hrejected⟩
    · rw [partialLink_of_mergeable name hmergeable] at h
      exact ⟨hmergeable, (Except.ok.inj h).symm⟩
    · rw [partialLink_of_rejected name hrejected] at h
      cases h
  · rintro ⟨hmerge, rfl⟩
    exact partialLink_of_mergeable name hmerge

/-- The last of all labels of a name is that of the one module which defines it. -/
theorem bindingFrom_of_labels {base : Nat} {modules : List Module} (honce : DefinedOnce modules)
    {name : SymbolName} {binding : Binding}
    (h : Manifest.binding? ((Item.labelsFrom base (itemsOf modules)).map Label.symbol) name = some binding) :
    bindingFrom base name modules = some binding := by
  induction modules generalizing base with
  | nil => cases h
  | cons m rest ih =>
    obtain ⟨hfirst, hrest⟩ := List.pairwise_cons.mp honce
    change Manifest.binding? ((Item.labelsFrom base (m.code.items ++ itemsOf rest)).map Label.symbol) name = _ at h
    rw [Item.labelsFrom_append, List.map_append, Manifest.binding?_append, Code.span_items, ← Int.natCast_add,
      Option.or_eq_some_iff] at h
    rw [bindingFrom]
    rcases h with hlater | ⟨-, hown⟩
    · have hbinding := ih hrest hlater
      obtain ⟨last, -, -, rfl⟩ := Label.exists_of_binding? hlater
      have hdefines : Defines rest name := by
        rw [← isSome_offset?_bindingFrom, hbinding]
        rfl
      obtain ⟨n, hn, hsome⟩ := hdefines
      rw [hbinding]
      -- a later module defines the name, so the first one can at most mention it
      rcases hm : m.binding? name with _ | _ | offset
      · rfl
      · rfl
      · refine absurd ⟨?_, hsome⟩ (hfirst n hn name)
        rw [Module.offset?_eq_some_iff.mpr hm, Option.isSome_some]
    · rw [Item.labelsFrom_eq, Label.binding?_shift, Option.map_eq_some_iff] at hown
      obtain ⟨own, hown, rfl⟩ := hown
      have hm : m.binding? name = some own := by
        rw [Module.binding?_eq]
        change (Manifest.binding? ((Item.labelsFrom 0 m.code.items).map Label.symbol) name).or _ = _
        rw [hown, Option.some_or]
      obtain ⟨last, -, -, rfl⟩ := Label.exists_of_binding? hown
      rw [hm]
      rfl

private theorem mem_mentionedNames_of_bindingFrom {base : Nat} {modules : List Module} {name : SymbolName}
    (h : bindingFrom base name modules ≠ none) : name ∈ mentionedNames modules := by
  by_contra hnot
  apply h
  rw [bindingFrom_eq_none_iff]
  intro m hm
  have hmanifest : name ∉ m.manifest.map Symbol.name := fun hname =>
    hnot (mem_mentionedNames_iff.mpr ⟨m, hm, .inl hname⟩)
  have hlabels : name ∉ m.code.labels.map Label.name := fun hname =>
    hnot (mem_mentionedNames_iff.mpr ⟨m, hm, .inr (.inl (Item.mem_map_name_labelsFrom_iff.mp hname))⟩)
  rw [Module.binding?_of_not_mem_labels hlabels, Manifest.binding?_eq_none_iff]
  exact hmanifest

private theorem ref_of_bindingFrom_eq_none {base : Nat} {modules : List Module} {name : SymbolName}
    (h : bindingFrom base name modules = none) (hname : name ∈ mentionedNames modules) :
    .ref name ∈ itemsOf modules := by
  obtain ⟨m, hm, hmention⟩ := mem_mentionedNames_iff.mp hname
  have hnone := bindingFrom_eq_none_iff.mp h m hm
  rw [Module.binding?, Manifest.binding?_eq_none_iff, Module.symbols, List.map_append, List.mem_append, not_or,
    List.map_map] at hnone
  obtain ⟨hmanifest, hlabels⟩ := hnone
  rcases hmention with hmention | hmention | hmention
  · exact absurd hmention hmanifest
  · exact absurd (Item.mem_map_name_labelsFrom_iff.mpr hmention) hlabels
  · exact List.mem_flatMap.mpr ⟨m, hm, hmention⟩

/-- The combined module says of a name what its parts say together, and besides that a name to which they only
refer is undefined. -/
theorem binding?_combined (name : ModuleName) {modules : List Module} (h : Mergeable modules) (symbol : SymbolName) :
    (combined name modules).binding? symbol = bindingFrom 0 symbol modules ∨
      bindingFrom 0 symbol modules = none ∧ (combined name modules).binding? symbol = some .undefined ∧
        .ref symbol ∈ itemsOf modules := by
  have hlabels : (combined name modules).code.labels = Item.labelsFrom 0 (itemsOf modules) := by
    rw [← items_deferredCode]
    rfl
  have hlisting : (combined name modules).manifest.binding? symbol =
      if symbol ∈ mentionedNames modules then some (.ofOffset? ((merged modules).offset? symbol)) else none :=
    SymbolTable.binding?_listing _ _ _
  rw [Module.binding?_eq, hlabels, hlisting, SymbolTable.offset?_eq, binding?_merged h.definitionsFit]
  cases hlast : Manifest.binding? ((Item.labelsFrom 0 (itemsOf modules)).map Label.symbol) symbol with
  | some binding => exact .inl (bindingFrom_of_labels h.definedOnce hlast).symm
  | none =>
    rw [Option.none_or]
    cases hbinding : bindingFrom 0 symbol modules with
    | none =>
      by_cases hmention : symbol ∈ mentionedNames modules
      · exact .inr ⟨rfl, if_pos hmention, ref_of_bindingFrom_eq_none hbinding hmention⟩
      · exact .inl (if_neg hmention)
    | some binding =>
      have hmention : symbol ∈ mentionedNames modules :=
        mem_mentionedNames_of_bindingFrom (hbinding.trans_ne (Option.some_ne_none _))
      rw [if_pos hmention]
      cases binding <;> exact .inl rfl

theorem offset?_combined (name : ModuleName) {modules : List Module} (h : Mergeable modules) (symbol : SymbolName) :
    (combined name modules).offset? symbol = (merged modules).offset? symbol := by
  rw [Module.offset?, SymbolTable.offset?_eq, binding?_merged h.definitionsFit]
  rcases binding?_combined name h symbol with heq | ⟨hnone, hundefined, -⟩
  · rw [heq]
  · rw [hnone, hundefined]
    rfl

theorem labelsFit_append {first second : List Module} :
    LabelsFit (first ++ second) ↔ LabelsFit first ∧ LabelsFit second :=
  List.forall_mem_append

theorem fitFrom_append {base : Nat} {first second : List Module} :
    FitFrom base (first ++ second) ↔ FitFrom base first ∧ FitFrom (base + codeSize first) second := by
  rw [FitFrom, layoutFrom_append]
  exact List.forall_mem_append

theorem defines_append {first second : List Module} {name : SymbolName} :
    Defines (first ++ second) name ↔ Defines first name ∨ Defines second name := by
  simp only [Defines, List.mem_append, or_and_right, exists_or]

theorem definedOnce_append {first second : List Module} :
    DefinedOnce (first ++ second) ↔
      DefinedOnce first ∧ DefinedOnce second ∧ ∀ name, Defines first name → ¬Defines second name := by
  rw [DefinedOnce, List.pairwise_append]
  refine and_congr_right fun _ => and_congr_right fun _ => ?_
  constructor
  · rintro h name ⟨m, hm, hfirst⟩ ⟨n, hn, hsecond⟩
    exact h m hm n hn name ⟨hfirst, hsecond⟩
  · rintro h m hm n hn name ⟨hfirst, hsecond⟩
    exact h name ⟨m, hm, hfirst⟩ ⟨n, hn, hsecond⟩

theorem definer?_append (name : SymbolName) (first second : List Module) :
    definer? name (first ++ second) = (definer? name first).or (definer? name second) := by
  rw [definer?, List.find?_append, Option.map_or]
  rfl

theorem definer?_singleton (name : SymbolName) (m : Module) :
    definer? name [m] = if (m.offset? name).isSome then some m.name else none := by
  rw [definer?, List.find?_singleton]
  split <;> rfl

theorem definer?_eq_none_iff {name : SymbolName} {modules : List Module} :
    definer? name modules = none ↔ ¬Defines modules name := by
  simp [definer?, Defines]

theorem resolved_iff {modules : List Module} :
    Resolved modules ↔ ∀ name, .ref name ∈ itemsOf modules → Defines modules name := by
  simp only [Resolved, Code.mem_refs_iff, itemsOf, List.mem_flatMap]
  constructor
  · rintro h name ⟨m, hm, hname⟩
    exact h m hm name hname
  · intro h m hm name hname
    exact h name ⟨m, hm, hname⟩

/-- Modules that take the same room, hold the same items and define the same names in range. -/
structure Interchangeable (first second : List Module) : Prop where
  itemsOf : itemsOf first = itemsOf second
  fitFrom : ∀ base, FitFrom base first ↔ FitFrom base second
  defines : ∀ name, Defines first name ↔ Defines second name

namespace Interchangeable

variable {first second : List Module}

theorem symm (h : Interchangeable first second) : Interchangeable second first :=
  ⟨h.itemsOf.symm, fun base => (h.fitFrom base).symm, fun name => (h.defines name).symm⟩

theorem codeSize (h : Interchangeable first second) : codeSize first = codeSize second := by
  rw [← span_itemsOf, ← span_itemsOf, h.itemsOf]

theorem mergeable (h : Interchangeable first second) (hsecond : Mergeable second) {before after : List Module}
    (hmerge : Mergeable (before ++ first ++ after)) : Mergeable (before ++ second ++ after) := by
  obtain ⟨hlabels, hfit, honce⟩ := hmerge
  rw [labelsFit_append, labelsFit_append] at hlabels
  rw [DefinitionsFit, fitFrom_append, fitFrom_append, h.fitFrom, codeSize_append, h.codeSize] at hfit
  rw [definedOnce_append, definedOnce_append] at honce
  obtain ⟨⟨hlabelsBefore, -⟩, hlabelsAfter⟩ := hlabels
  obtain ⟨⟨honceBefore, -, happart⟩, honceAfter, happartAfter⟩ := honce
  refine ⟨?_, ?_, ?_⟩
  · rw [labelsFit_append, labelsFit_append]
    exact ⟨⟨hlabelsBefore, hsecond.labelsFit⟩, hlabelsAfter⟩
  · rw [DefinitionsFit, fitFrom_append, fitFrom_append, codeSize_append]
    exact hfit
  · simp only [defines_append, h.defines] at happart happartAfter
    rw [definedOnce_append, definedOnce_append]
    refine ⟨⟨honceBefore, hsecond.definedOnce, happart⟩, honceAfter, ?_⟩
    intro name
    rw [defines_append]
    exact happartAfter name

theorem itemsOf_among (h : Interchangeable first second) (before after : List Module) :
    Link.itemsOf (before ++ first ++ after) = Link.itemsOf (before ++ second ++ after) := by
  have happend (xs ys : List Module) : Link.itemsOf (xs ++ ys) = Link.itemsOf xs ++ Link.itemsOf ys :=
    List.flatMap_append
  simp only [happend, h.itemsOf]

theorem resolved (h : Interchangeable first second) {before after : List Module}
    (hresolved : Resolved (before ++ first ++ after)) : Resolved (before ++ second ++ after) := by
  rw [resolved_iff, h.itemsOf_among] at hresolved
  rw [resolved_iff]
  simp only [defines_append, h.defines] at hresolved ⊢
  exact hresolved

end Interchangeable

theorem layoutFrom_add (base start : Nat) (modules : List Module) :
    layoutFrom (base + start) modules = (layoutFrom start modules).map fun placed => (base + placed.1, placed.2) := by
  induction modules generalizing start with
  | nil => rfl
  | cons m rest ih => rw [layoutFrom, layoutFrom, List.map_cons, Nat.add_assoc, ih]

theorem fitFrom_iff {base : Nat} {modules : List Module} :
    FitFrom base modules ↔ ∀ placed ∈ layoutFrom 0 modules, ∀ name offset,
      placed.2.offset? name = some offset → Offset.Fits (base + (placed.1 + offset.toInt)) := by
  rw [FitFrom, ← Nat.add_zero base, layoutFrom_add, List.forall_mem_map]
  simp only [Int.natCast_add, Int.add_assoc, Nat.add_zero]

/-- What fits further on fits at the start, since no offset is below the range. -/
theorem FitFrom.definitionsFit {base : Nat} {modules : List Module} (h : FitFrom base modules) :
    DefinitionsFit modules := by
  intro placed hplaced name offset hoffset
  obtain ⟨-, hhigh⟩ := fitFrom_iff.mp h placed hplaced name offset hoffset
  obtain ⟨hlow, -⟩ := Offset.fits_toInt offset
  exact ⟨by omega, by omega⟩

theorem mergeable_of_among {before inner after : List Module} (h : Mergeable (before ++ inner ++ after)) :
    Mergeable inner := by
  obtain ⟨hlabels, hfit, honce⟩ := h
  rw [labelsFit_append, labelsFit_append] at hlabels
  rw [DefinitionsFit, fitFrom_append, fitFrom_append] at hfit
  rw [definedOnce_append, definedOnce_append] at honce
  exact ⟨hlabels.1.2, hfit.1.2.definitionsFit, honce.1.2.1⟩

theorem interchangeable_combined (name : ModuleName) {modules : List Module} (h : Mergeable modules) :
    Interchangeable modules [combined name modules] := by
  refine ⟨?_, ?_, ?_⟩
  · rw [itemsOf, itemsOf, List.flatMap_singleton]
    exact (items_deferredCode modules).symm
  · intro base
    rw [fitFrom_iff, fitFrom_iff]
    simp only [layoutFrom, List.forall_mem_singleton, offset?_combined name h]
    constructor
    · intro hfit symbol offset hoffset
      have hsome : ((merged modules).offset? symbol).isSome := by rw [hoffset, Option.isSome_some]
      obtain ⟨m, hm, hdefines⟩ := (isSome_offset?_merged h.definitionsFit).mp hsome
      obtain ⟨own, hown⟩ := Option.isSome_iff_exists.mp hdefines
      obtain ⟨start, hplaced⟩ := exists_mem_layoutFrom hm
      obtain ⟨place, hplace, hposition⟩ := h.offset?_merged hplaced hown
      obtain rfl : place = offset := Option.some.inj (hplace.symm.trans hoffset)
      have hbase := hfit _ hplaced symbol own hown
      rwa [← hposition, ← Int.zero_add place.toInt] at hbase
    · intro hfit placed hplaced symbol offset hoffset
      obtain ⟨place, hplace, hposition⟩ := h.offset?_merged hplaced hoffset
      have hbase := hfit symbol place hplace
      rwa [hposition, Int.natCast_zero, Int.zero_add] at hbase
  · intro symbol
    rw [← isSome_offset?_merged h.definitionsFit, ← offset?_combined name h]
    simp [Defines]

theorem mergeable_combined (name : ModuleName) {modules : List Module} (h : Mergeable modules) :
    Mergeable [combined name modules] := by
  refine ⟨?_, ?_, List.pairwise_singleton _ _⟩
  · -- pass two finds these labels in range, counted from the start of the first module
    intro m hm label hlabel
    rw [List.mem_singleton.mp hm, Code.labels, combined, items_deferredCode] at hlabel
    exact (h.known label hlabel).1
  · exact ((interchangeable_combined name h).fitFrom 0).mp h.definitionsFit

theorem definer?_imageOf {modules : List Module} (h : Mergeable modules) (symbol : SymbolName) :
    (imageOf modules).symbols.definer? symbol = definer? symbol modules := by
  rw [← definer?_merged h.definitionsFit]
  exact Filling.definer?_run _ _ _

private theorem join_undefined {first second : Option Binding}
    (h : ((Binding.join first second).bind Binding.offset?).isSome) :
    Binding.join first (Binding.join (some .undefined) second) = Binding.join first second := by
  rcases first with _ | _ | _ <;> rcases second with _ | _ | _ <;>
    simp_all [Binding.join, Binding.offset?]

/-- Once every reference is resolved, the combined module binds every name of the image as its parts do. -/
theorem bindingFrom_among_combined (name : ModuleName) {before inner after : List Module} (h : Mergeable inner)
    (hresolved : Resolved (before ++ inner ++ after)) (symbol : SymbolName) :
    bindingFrom 0 symbol (before ++ [combined name inner] ++ after) =
      bindingFrom 0 symbol (before ++ inner ++ after) := by
  have hcombined : bindingFrom (codeSize before) symbol [combined name inner] =
      ((combined name inner).binding? symbol).map (SymbolTable.moved (codeSize before)) := by
    rw [bindingFrom, bindingFrom, Binding.join_none_right]
  have hinner : bindingFrom (codeSize before) symbol inner =
      (bindingFrom 0 symbol inner).map (SymbolTable.moved (codeSize before)) :=
    bindingFrom_add (codeSize before) 0 symbol inner
  have hsize := (interchangeable_combined name h).codeSize
  rw [bindingFrom_append, bindingFrom_append, bindingFrom_append, bindingFrom_append, codeSize_append,
    codeSize_append, ← hsize, Nat.zero_add, hcombined, hinner, Binding.join_assoc, Binding.join_assoc]
  rcases binding?_combined name h symbol with heq | ⟨hnone, hundefined, href⟩
  · rw [heq]
  · -- the parts only refer to the name, so some module around them defines it
    have hitem : .ref symbol ∈ itemsOf (before ++ inner ++ after) := by
      simp only [itemsOf, List.flatMap_append, List.mem_append]
      exact .inl (.inr href)
    have hdefines := resolved_iff.mp hresolved symbol hitem
    rw [← isSome_offset?_bindingFrom, bindingFrom_append, bindingFrom_append, Nat.zero_add, hinner, hnone,
      Option.map_none, Binding.join_none_right, codeSize_append] at hdefines
    rw [hundefined, hnone, Option.map_none, Binding.join_none_left]
    exact join_undefined hdefines

theorem definer?_combined (name : ModuleName) {modules : List Module} (h : Mergeable modules) (symbol : SymbolName)
    (hdefines : Defines modules symbol) : definer? symbol [combined name modules] = some name := by
  have hsome : ((combined name modules).offset? symbol).isSome := by
    rw [offset?_combined name h, isSome_offset?_merged h.definitionsFit]
    exact hdefines
  rw [definer?_singleton, if_pos hsome]
  rfl

theorem link_combined_iff (name : ModuleName) {before inner after : List Module} (h : Mergeable inner) :
    (Mergeable (before ++ inner ++ after) ∧ Resolved (before ++ inner ++ after)) ↔
      Mergeable (before ++ [combined name inner] ++ after) ∧ Resolved (before ++ [combined name inner] ++ after) := by
  have hinter := interchangeable_combined name h
  constructor
  · rintro ⟨hmerge, hresolved⟩
    exact ⟨hinter.mergeable (mergeable_combined name h) hmerge, hinter.resolved hresolved⟩
  · rintro ⟨hmerge, hresolved⟩
    exact ⟨hinter.symm.mergeable h hmerge, hinter.symm.resolved hresolved⟩

theorem agree_filled_combined (name : ModuleName) {before inner after : List Module}
    (hmerge : Mergeable (before ++ inner ++ after)) (hresolved : Resolved (before ++ inner ++ after)) :
    (filled (before ++ [combined name inner] ++ after)).Agree (filled (before ++ inner ++ after)) := by
  have hinner := mergeable_of_among hmerge
  have hinter := interchangeable_combined name hinner
  have hstaged := hinter.mergeable (mergeable_combined name hinner) hmerge
  rw [filled, filled, hinter.itemsOf_among]
  apply Filling.Agree.run
  refine ⟨rfl, ?_, rfl, rfl⟩
  intro symbol
  change (merged _).binding? symbol = (merged _).binding? symbol
  rw [binding?_merged hstaged.definitionsFit, binding?_merged hmerge.definitionsFit]
  exact bindingFrom_among_combined name hinner hresolved symbol

end Link

/-- Linking some of the modules into one beforehand changes neither whether the link succeeds, nor the bytes,
nor where any name is; only the definers of their names change, to the combined module. -/
theorem link_partialLink (before inner after : List Module) (name : ModuleName) :
    ((∃ image, link (before ++ inner ++ after) = .ok image) ↔
      ∃ combined image, partialLink name inner = .ok combined ∧ link (before ++ [combined] ++ after) = .ok image) ∧
    ∀ direct combined staged, link (before ++ inner ++ after) = .ok direct → partialLink name inner = .ok combined →
      link (before ++ [combined] ++ after) = .ok staged →
      staged.bytes = direct.bytes ∧
      (∀ symbol, staged.symbols.get? symbol = direct.symbols.get? symbol) ∧
      (∀ symbol, Link.Defines inner symbol → staged.symbols.definer? symbol = some name) ∧
      ∀ symbol, ¬Link.Defines inner symbol → staged.symbols.definer? symbol = direct.symbols.definer? symbol := by
  constructor
  · constructor
    · rintro ⟨image, himage⟩
      obtain ⟨hlink, -⟩ := Link.link_eq_ok_iff.mp himage
      have hinner := Link.mergeable_of_among hlink.1
      have hstaged := (Link.link_combined_iff name hinner).mp hlink
      exact ⟨_, _, Link.partialLink_eq_ok_iff.mpr ⟨hinner, rfl⟩, Link.link_eq_ok_iff.mpr ⟨hstaged, rfl⟩⟩
    · rintro ⟨combined, image, hpartial, himage⟩
      obtain ⟨hinner, rfl⟩ := Link.partialLink_eq_ok_iff.mp hpartial
      obtain ⟨hlink, -⟩ := Link.link_eq_ok_iff.mp himage
      exact ⟨_, Link.link_eq_ok_iff.mpr ⟨(Link.link_combined_iff name hinner).mpr hlink, rfl⟩⟩
  · intro direct combined staged hdirect hpartial hstaged
    obtain ⟨hinner, rfl⟩ := Link.partialLink_eq_ok_iff.mp hpartial
    obtain ⟨⟨hmerge, hresolved⟩, rfl⟩ := Link.link_eq_ok_iff.mp hdirect
    obtain ⟨⟨hmergeStaged, -⟩, rfl⟩ := Link.link_eq_ok_iff.mp hstaged
    obtain ⟨-, hbinding, hbytes, -⟩ := Link.agree_filled_combined name hmerge hresolved
    refine ⟨hbytes, ?_, ?_, ?_⟩
    · intro symbol
      rw [SymbolTable.get?_eq, SymbolTable.get?_eq]
      exact congrArg _ (hbinding symbol)
    · intro symbol hdefines
      rw [Link.definer?_imageOf hmergeStaged, Link.definer?_append, Link.definer?_append]
      have hbefore := (Link.definedOnce_append.mp (Link.definedOnce_append.mp hmerge.definedOnce).1).2.2
      have hnone : Link.definer? symbol before = none :=
        Link.definer?_eq_none_iff.mpr fun h => hbefore symbol h hdefines
      rw [hnone, Link.definer?_combined name hinner symbol hdefines]
      rfl
    · intro symbol hdefines
      have hcombined : ¬Link.Defines [Link.combined name inner] symbol := fun h =>
        hdefines (((Link.interchangeable_combined name hinner).defines symbol).mpr h)
      rw [Link.definer?_imageOf hmergeStaged, Link.definer?_imageOf hmerge]
      simp only [Link.definer?_append, Link.definer?_eq_none_iff.mpr hdefines,
        Link.definer?_eq_none_iff.mpr hcombined]

/-- Two modules combined ahead of the link, one of which has a definition in its manifest alone, and a reference
that only a module behind them resolves. -/
theorem link_partialLink_pair : ∃ direct combined staged,
    link [⟨"m", [], .ref "y"⟩, ⟨"a", [⟨"x", .defined (-1)⟩], .deferred (.ref "z") (.mark "y")⟩, ⟨"b", [], .ref "x"⟩,
      ⟨"c", [], .mark "z"⟩] = .ok direct ∧
    partialLink "ab" [⟨"a", [⟨"x", .defined (-1)⟩], .deferred (.ref "z") (.mark "y")⟩, ⟨"b", [], .ref "x"⟩] =
      .ok combined ∧
    link [⟨"m", [], .ref "y"⟩, combined, ⟨"c", [], .mark "z"⟩] = .ok staged ∧
    staged.bytes = direct.bytes ∧ staged.symbols.get? "x" = direct.symbols.get? "x" ∧
    staged.symbols.definer? "x" = some "ab" := by
  have hlaws := link_partialLink [⟨"m", [], .ref "y"⟩]
    [⟨"a", [⟨"x", .defined (-1)⟩], .deferred (.ref "z") (.mark "y")⟩, ⟨"b", [], .ref "x"⟩] [⟨"c", [], .mark "z"⟩] "ab"
  obtain ⟨combined, staged, hcombined, hstaged⟩ := hlaws.1.mp ⟨_, rfl⟩
  obtain ⟨hbytes, hsymbols, hdefiner, -⟩ := hlaws.2 _ combined staged rfl hcombined hstaged
  exact ⟨_, combined, staged, rfl, hcombined, hstaged, hbytes, hsymbols "x", hdefiner "x" ⟨_, List.mem_cons_self, rfl⟩⟩

end StackLink
