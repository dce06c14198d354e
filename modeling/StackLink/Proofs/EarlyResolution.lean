import StackLink.Proofs.Alike
import StackLink.Proofs.Cells
import StackLink.Proofs.Image

/-!
# Resolving a module before the link

Resolving a module by the table of an image fills in the references outside deferred code and drops the labels
there. What is left takes the same room and comes to the same bytes under that table. The labels it has lost
are still in the manifest if that listed them, so that a link cannot tell the two modules apart.
-/
namespace StackLink

namespace Code

/-- What may be left of code once references have been filled in from a table. -/
structure Remnant (table : SymbolTable) (code rest : Code) : Prop where
  size : rest.size = code.size
  content : rest.items.flatMap (Item.content table) = code.items.flatMap (Item.content table)
  labels : rest.labels.Sublist code.labels
  refs : rest.refs.Sublist code.refs

theorem flatMap_content_items_bytes (table : SymbolTable) (payload : Bytes) :
    (bytes payload).items.flatMap (Item.content table) = payload := by
  by_cases h : payload = [] <;> simp [items, h, Item.content]

namespace Remnant

variable {table : SymbolTable}

theorem refl (code : Code) : Remnant table code code :=
  ⟨rfl, rfl, .refl _, .refl _⟩

theorem ref {name : SymbolName} {offset : Int16} (h : table.offset? name = some offset) :
    Remnant table (.ref name) (.bytes (Bytes.ofOffset offset)) := by
  refine ⟨rfl, ?_, ?_, ?_⟩
  · rw [flatMap_content_items_bytes]
    simp [items, Item.content, h]
  · exact List.nil_sublist _
  · exact List.nil_sublist _

theorem label {inner rest : Code} (name : SymbolName) (h : Remnant table inner rest) :
    Remnant table (.label name inner) rest := by
  obtain ⟨hsize, hcontent, hlabels, hrefs⟩ := h
  exact ⟨hsize, hcontent, hlabels.cons _, hrefs⟩

theorem join {first second left right : Code} (hfirst : Remnant table first left)
    (hsecond : Remnant table second right) : Remnant table (.seq first second) (Code.join left right) := by
  -- what is joined differs from a sequence only in where content is divided
  have hcells : (Code.join left right).cells = (seq left right).cells := by
    rw [cells_join, cells_seq]
  refine ⟨?_, ?_, ?_, ?_⟩
  · rw [size_of_cells hcells]
    simp only [Code.size, hfirst.size, hsecond.size]
  · rw [content_of_cells hcells, items, items, List.flatMap_append, List.flatMap_append, hfirst.content,
      hsecond.content]
  · rw [labels_of_cells hcells, labels_seq, labels_seq, hfirst.size]
    exact hfirst.labels.append (hsecond.labels.map _)
  · rw [refs_of_cells hcells, refs_seq, refs_seq]
    exact hfirst.refs.append hsecond.refs

end Remnant

/-- Pass two over a table that has each label where it stands and every name referred to. -/
theorem substituteAt_of_settled {code : Code} {position : Int} {table : SymbolTable}
    (hsettled : (Filling.start position table).Settled code.items)
    (hrefs : ∀ name, .ref name ∈ code.items → (table.offset? name).isSome) :
    ∃ rest, code.substituteAt position table = ⟨table, [], rest, code.size⟩ ∧ Remnant table code rest := by
  induction code generalizing position with
  | bytes payload => exact ⟨_, rfl, .refl _⟩
  | ref name =>
    obtain ⟨offset, hoffset⟩ := Option.isSome_iff_exists.mp (hrefs name List.mem_cons_self)
    rw [substituteAt, hoffset]
    exact ⟨_, rfl, .ref hoffset⟩
  | label name inner ih =>
    obtain ⟨hfits, hoffset⟩ := hsettled ⟨name, position⟩ List.mem_cons_self
    obtain ⟨rest, hrest, hremnant⟩ := ih (fun label hlabel => hsettled label (List.mem_cons_of_mem _ hlabel))
      (fun other hother => hrefs other (List.mem_cons_of_mem _ hother))
    have hsame : table.set name (.defined (Int16.ofInt position)) = table := SymbolTable.set_of_offset? hoffset
    refine ⟨rest, ?_, hremnant.label name⟩
    rw [substituteAt, Offset.ofInt?_of_fits hfits]
    simp only [hsame]
    exact hrest
  | seq first second ihf ihs =>
    have hlabels := Item.labelsFrom_append position first.items second.items
    rw [span_items] at hlabels
    obtain ⟨left, hleft, hfirst⟩ := ihf
      (fun label hlabel => hsettled label (hlabels ▸ List.mem_append_left _ hlabel))
      (fun name hname => hrefs name (List.mem_append_left _ hname))
    obtain ⟨right, hright, hsecond⟩ := @ihs (position + first.size)
      (fun label hlabel => hsettled label (hlabels ▸ List.mem_append_right _ hlabel))
      (fun name hname => hrefs name (List.mem_append_right _ hname))
    refine ⟨Code.join left right, ?_, hfirst.join hsecond⟩
    rw [substituteAt]
    simp only [hleft, hright]
    rfl
  | deferred first second ihf ihs => exact ⟨_, rfl, .refl _⟩

end Code

namespace Module

/-- The manifest has every label of the code, where the code has it. -/
def ListsLabels (m : Module) : Prop :=
  ∀ label ∈ m.code.labels, ∃ offset : Int16,
    m.manifest.binding? label.name = some (.defined offset) ∧ offset.toInt = label.position

theorem ListsLabels.binding? {m : Module} (h : m.ListsLabels) (symbol : SymbolName) :
    m.binding? symbol = m.manifest.binding? symbol := by
  rw [binding?_eq]
  cases hbinding : Manifest.binding? (m.code.labels.map Label.symbol) symbol with
  | none => rw [Option.none_or]
  | some binding =>
    obtain ⟨label, hlabel, rfl, rfl⟩ := Label.exists_of_binding? hbinding
    obtain ⟨offset, hoffset, hposition⟩ := h label hlabel
    rw [Option.some_or, hoffset, ← hposition, Int16.ofInt_toInt]

/-- A module with what is left of its code once references have been filled in from a table. -/
structure Remnant (table : SymbolTable) (m rest : Module) : Prop where
  alike : Alike m rest
  code : Code.Remnant table m.code rest.code

theorem Remnant.refl (table : SymbolTable) (m : Module) : Remnant table m m :=
  ⟨.refl m, .refl m.code⟩

theorem ListsLabels.remnant {m : Module} (h : m.ListsLabels) {table : SymbolTable} {rest : Code}
    (hrest : Code.Remnant table m.code rest) : Remnant table m { m with code := rest } := by
  have hlists : ListsLabels { m with code := rest } := fun label hlabel =>
    h label (hrest.labels.subset hlabel)
  refine ⟨⟨rfl, hrest.size, ?_⟩, hrest⟩
  intro symbol
  rw [hlists.binding?, h.binding?]

end Module

namespace Link

theorem remnants_set {table : SymbolTable} {modules : List Module} {k : Nat} {m rest : Module}
    (hm : modules[k]? = some m) (h : Module.Remnant table m rest) :
    List.Forall₂ (Module.Remnant table) modules (modules.set k rest) := by
  induction modules generalizing k with
  | nil => cases hm
  | cons first modules ih =>
    cases k with
    | zero =>
      cases hm
      exact .cons h (List.forall₂_same.mpr fun n _ => .refl table n)
    | succ k => exact .cons (.refl table first) (ih hm)

theorem exists_of_mem_remnants {table : SymbolTable} {first second : List Module}
    (h : List.Forall₂ (Module.Remnant table) first second) {n : Module} (hn : n ∈ second) :
    ∃ m ∈ first, Code.Remnant table m.code n.code := by
  induction h with
  | nil => cases hn
  | cons hm _ ih =>
    rcases List.mem_cons.mp hn with rfl | hn
    · exact ⟨_, List.mem_cons_self, hm.code⟩
    · obtain ⟨m, hm, hcode⟩ := ih hn
      exact ⟨m, List.mem_cons_of_mem _ hm, hcode⟩

theorem content_of_remnants {table : SymbolTable} {first second : List Module}
    (h : List.Forall₂ (Module.Remnant table) first second) :
    (itemsOf second).flatMap (Item.content table) = (itemsOf first).flatMap (Item.content table) := by
  induction h with
  | nil => rfl
  | @cons m n first second hm _ ih =>
    change (n.code.items ++ itemsOf second).flatMap _ = (m.code.items ++ itemsOf first).flatMap _
    rw [List.flatMap_append, List.flatMap_append, hm.code.content, ih]

/-- Remnants of the modules of an image, filled in from its table, give the image again. -/
theorem link_of_remnants {first second : List Module} {image : Image}
    (hunique : ∀ m ∈ first, (m.code.labels.map Label.name).Nodup) (hlink : link first = .ok image)
    (h : List.Forall₂ (Module.Remnant image.symbols) first second) : link second = .ok image := by
  obtain ⟨⟨hmerge, hresolved⟩, rfl⟩ := link_eq_ok_iff.mp hlink
  obtain ⟨htable, hbytes⟩ := hmerge.filled_eq hunique hresolved
  have halike : List.Forall₂ Module.Alike first second := h.imp fun _ _ hm => hm.alike
  have hsame := sameDefinitions_of_alike halike
  have huniqueSecond : ∀ n ∈ second, (n.code.labels.map Label.name).Nodup := by
    intro n hn
    obtain ⟨m, hm, hcode⟩ := exists_of_mem_remnants h hn
    exact (hunique m hm).sublist (hcode.labels.map _)
  have hlabels : LabelsFit second := by
    intro n hn label hlabel
    obtain ⟨m, hm, hcode⟩ := exists_of_mem_remnants h hn
    exact hmerge.labelsFit m hm label (hcode.labels.subset hlabel)
  have hfit := (fit_of_sameDefinitions hsame).mpr ⟨hmerge.definitionsFit, hmerge.definedOnce⟩
  have hmergeSecond : Mergeable second := ⟨hlabels, hfit.1, hfit.2⟩
  have hresolvedSecond : Resolved second := by
    intro n hn name hname
    obtain ⟨m, hm, hcode⟩ := exists_of_mem_remnants h hn
    exact (defines_of_sameDefinitions hsame).mpr (hresolved m hm name (hcode.refs.subset hname))
  refine link_eq_ok_iff.mpr ⟨⟨hmergeSecond, hresolvedSecond⟩, ?_⟩
  obtain ⟨htableSecond, hbytesSecond⟩ := hmergeSecond.filled_eq huniqueSecond hresolvedSecond
  have hcontent : (itemsOf second).flatMap (Item.content (merged first)) =
      (itemsOf first).flatMap (Item.content (merged first)) := by
    rw [← htable]
    exact content_of_remnants h
  rw [imageOf, imageOf, htable, hbytes, htableSecond, hbytesSecond, merged_of_alike halike, hcontent,
    placements_of_sameDefinitions hsame]

theorem resolve_of_link {modules : List Module} {image : Image}
    (hunique : ∀ m ∈ modules, (m.code.labels.map Label.name).Nodup) (hlink : link modules = .ok image) {k : Nat}
    {m : Module} (hm : modules[k]? = some m) {base : Int16} (hbase : base.toInt = codeSize (modules.take k)) :
    ∃ rest, m.resolve image.symbols base = (image.symbols, .ok { m with code := rest }) ∧
      Code.Remnant image.symbols m.code rest := by
  obtain ⟨⟨hmerge, hresolved⟩, rfl⟩ := link_eq_ok_iff.mp hlink
  obtain ⟨htable, -⟩ := hmerge.filled_eq hunique hresolved
  have hmem : m ∈ modules := List.mem_of_getElem? hm
  have hsettled : (Filling.start base.toInt (merged modules)).Settled m.code.items := by
    intro label hlabel
    apply hmerge.settled hunique
    rw [Filling.start, hbase, Item.labelsFrom_eq, List.mem_map] at hlabel
    obtain ⟨own, hown, rfl⟩ := hlabel
    exact mem_labelsFrom_itemsOf_iff.mpr ⟨_, mem_layoutFrom_of_getElem? hm, own, hown, rfl⟩
  have hrefs : ∀ name, .ref name ∈ m.code.items → ((merged modules).offset? name).isSome := fun name hname =>
    (isSome_offset?_merged hmerge.definitionsFit).mpr (hresolved m hmem name (Code.mem_refs_iff.mpr hname))
  obtain ⟨rest, hrest, hremnant⟩ := Code.substituteAt_of_settled hsettled hrefs
  simp only [imageOf, htable]
  refine ⟨rest, ?_, hremnant⟩
  rw [Module.resolve, Code.reduce, Code.reduceAt, hrest]

end Link

/-- Resolving a module of an image by the table of the image, where the module lies, succeeds and changes
nothing in the table. If its manifest lists its labels, then the resolved module in its place gives the same image. -/
theorem link_resolve {modules : List Module} {image : Image}
    (hunique : ∀ m ∈ modules, (m.code.labels.map Label.name).Nodup) (hlink : link modules = .ok image) {k : Nat}
    {m : Module} (hm : modules[k]? = some m) {base : Int16} (hbase : base.toInt = Link.codeSize (modules.take k))
    (hlists : m.ListsLabels) :
    ∃ resolved, m.resolve image.symbols base = (image.symbols, .ok resolved) ∧
      link (modules.set k resolved) = .ok image := by
  obtain ⟨rest, hresolve, hremnant⟩ := Link.resolve_of_link hunique hlink hm hbase
  exact ⟨_, hresolve, Link.link_of_remnants hunique hlink (Link.remnants_set hm (hlists.remnant hremnant))⟩

theorem link_resolve_second :
    let a : Module := ⟨"a", [], .seq (.bytes [23]) (.ref "x")⟩
    let b : Module := ⟨"b", [⟨"x", .undefined⟩, ⟨"x", .defined 1⟩, ⟨"z", .defined 5⟩],
      .seq (.seq (.bytes [7]) (.label "x" (.ref "y"))) (.deferred (.ref "z") (.mark "z"))⟩
    let c : Module := ⟨"c", [], .seq (.ref "z") (.mark "y")⟩
    let rest : Module := ⟨"b", b.manifest, .seq (.bytes [7, 10, 0]) (.deferred (.ref "z") (.mark "z"))⟩
    ∃ image, link [a, b, c] = .ok image ∧ image.bytes = [23, 4, 0, 7, 10, 0, 8, 0, 8, 0] ∧
      b.resolve image.symbols 3 = (image.symbols, .ok rest) ∧ link [a, rest, c] = .ok image := by
  intro a b c rest
  have hunique : ∀ m ∈ [a, b, c], (m.code.labels.map Label.name).Nodup := by decide
  have hlists : b.ListsLabels := List.forall_mem_cons.mpr ⟨⟨1, rfl, rfl⟩, List.forall_mem_singleton.mpr ⟨5, rfl, rfl⟩⟩
  have hvalues : (link [a, b, c]).toOption.map (fun image => (image.bytes, (b.resolve image.symbols 3).2)) =
      some ([23, 4, 0, 7, 10, 0, 8, 0, 8, 0], .ok rest) := by decide +kernel
  cases hlink : link [a, b, c] with
  | error failure =>
    rw [hlink] at hvalues
    cases hvalues
  | ok image =>
    rw [hlink] at hvalues
    obtain ⟨hbytes, hrest⟩ := Prod.mk.inj (Option.some.inj hvalues)
    obtain ⟨resolved, hresolve, himage⟩ := @link_resolve _ _ hunique hlink 1 b rfl 3 (by decide) hlists
    rw [hresolve] at hrest
    cases hrest
    exact ⟨image, rfl, hbytes, hresolve, himage⟩

end StackLink
