import StackLink.Proofs.Files
import StackLink.Proofs.PartialLink

/-!
# Linking files in stages

A combined object file that is read back holds the combined module, if its names fit into a manifest and its
code is not nested too deeply. Linking it then gives the image of the files that were combined.
-/
namespace StackLink

namespace Link

variable {modules : List Module}

theorem exists_written_deferredCode (h : ∀ m ∈ modules, ∃ data, ObjectFile.Written m.code data) :
    ∃ data, ObjectFile.Written (deferredCode modules) data := by
  have fold (rest : List Module) (code : Code) (hcode : ∃ data, ObjectFile.Written code data)
      (hrest : ∀ m ∈ rest, ∃ data, ObjectFile.Written m.code data) :
      ∃ data, ObjectFile.Written (rest.foldl (fun code next => .deferred code next.code) code) data := by
    induction rest generalizing code with
    | nil => exact hcode
    | cons m rest ih =>
      obtain ⟨left, hleft⟩ := hcode
      obtain ⟨right, hright⟩ := hrest m List.mem_cons_self
      apply ih
      · exact ⟨_, .deferred hleft hright⟩
      · intro n hn
        exact hrest n (List.mem_cons_of_mem _ hn)
  cases modules with
  | nil => exact ⟨_, .bytes (Nat.zero_le _)⟩
  | cons m rest =>
    apply fold
    · exact h m List.mem_cons_self
    · intro n hn
      exact h n (List.mem_cons_of_mem _ hn)

/-- The combined module lists the names of the manifests and those in the code. -/
theorem plain_combined (name : ModuleName) (hmanifest : ∀ m ∈ modules, ∀ symbol ∈ m.manifest, symbol.name.Plain)
    (hcode : ∀ m ∈ modules, ∀ mention ∈ m.code.mentions, mention.Plain) :
    ∀ symbol ∈ (combined name modules).manifest, symbol.name.Plain := by
  intro symbol hsymbol
  obtain ⟨listed, hlisted, rfl⟩ := List.mem_map.mp hsymbol
  obtain ⟨m, hm, hmention⟩ := mem_mentionedNames_iff.mp hlisted
  rcases hmention with hlisted | hmentioned
  · obtain ⟨own, hown, rfl⟩ := List.mem_map.mp hlisted
    exact hmanifest m hm own hown
  · exact hcode m hm listed (Code.mem_mentions_iff.mpr hmentioned)

theorem link_combined (name : ModuleName) (hmerge : Mergeable modules) (hresolved : Resolved modules) :
    ∃ image, link [combined name modules] = .ok image ∧ image.bytes = (imageOf modules).bytes := by
  have happend : [] ++ modules ++ [] = modules := by simp
  have hstaged : Mergeable [combined name modules] ∧ Resolved [combined name modules] := by
    have hiff := @link_combined_iff name [] modules [] hmerge
    rw [happend] at hiff
    exact hiff.mp ⟨hmerge, hresolved⟩
  have hagree := @agree_filled_combined name [] modules []
  rw [happend] at hagree
  exact ⟨_, link_eq_ok_iff.mpr ⟨hstaged, rfl⟩, (hagree hmerge hresolved).bytes⟩

end Link

namespace Files

variable {σ : Type} [FileStore (StateM σ)] {store start : σ} {inputs : List Path} {modules : List Module}

namespace Loads

theorem exists_read (h : Loads store inputs modules) {m : Module} (hm : m ∈ modules) :
    ∃ name data, ObjectFile.read name data = .ok m := by
  induction h with
  | nil => cases hm
  | cons hfirst _ ih =>
    rcases List.mem_cons.mp hm with rfl | hm
    · obtain ⟨data, _, hread⟩ := moduleIn_eq_ok_iff.mp hfirst
      exact ⟨_, data, hread⟩
    · exact ih hm

theorem exists_written (h : Loads store inputs modules) :
    ∀ m ∈ modules, ∃ data, ObjectFile.Written m.code data := by
  intro m hm
  obtain ⟨name, data, hread⟩ := h.exists_read hm
  obtain ⟨_, _, text, code, _, _, hwritten⟩ := ObjectFile.read_eq_ok_iff.mp hread
  exact ⟨code, hwritten⟩

theorem plain (h : Loads store inputs modules) :
    ∀ m ∈ modules, ∀ symbol ∈ m.manifest, symbol.name.Plain := by
  intro m hm
  obtain ⟨name, data, hread⟩ := h.exists_read hm
  obtain ⟨_, _, text, code, _, hparse, _⟩ := ObjectFile.read_eq_ok_iff.mp hread
  exact Manifest.plain_of_parse hparse

theorem of_read_eq (h : Loads store inputs modules)
    (hsame : ∀ path ∈ inputs, readIn start path = readIn store path) : Loads start inputs modules := by
  induction h with
  | nil => exact .nil
  | cons hfirst _ ih =>
    obtain ⟨hpath, hrest⟩ := List.forall_mem_cons.mp hsame
    refine .cons ?_ (ih hrest)
    rw [moduleIn, hpath]
    exact hfirst

end Loads

/-- A combined file that was not nested too deeply is read back. -/
theorem moduleIn_combined {middle : σ} {ab : Path} {code : Bytes}
    (hwritten : ObjectFile.Written (Link.deferredCode modules) code)
    (hread : readIn middle ab = .ok (ObjectFile.header ++
      Bytes.ofText (Link.combined ab.moduleName modules).manifest.text ++ 0x0A :: code))
    (hplain : ∀ symbol ∈ (Link.combined ab.moduleName modules).manifest, symbol.name.Plain) :
    ((Link.deferredCode modules).depth ≤ ObjectFile.maxDepth →
      moduleIn middle ab = .ok (Link.combined ab.moduleName modules)) ∧
    (ObjectFile.maxDepth < (Link.deferredCode modules).depth →
      ∃ deep, moduleIn middle ab = .error (.badObjectFile ab (.tooDeep deep))) := by
  have hsections := @ObjectFile.sections_of_written _ hplain code
  have hparse := Manifest.parse_text ab.moduleName hplain
  constructor
  · intro hdepth
    refine moduleIn_eq_ok_iff.mpr ⟨_, hread, ?_⟩
    exact ObjectFile.read_eq_ok_iff.mpr ⟨rfl, hdepth, _, code, hsections, hparse, hwritten⟩
  · intro hdepth
    obtain ⟨deep, hdeep⟩ := ObjectFile.read_tooDeep hsections hparse hwritten hdepth
    refine ⟨deep, ?_⟩
    simp only [moduleIn, hread, decode, hdeep]

variable [LawfulFileStore σ]

theorem exists_image_of_linkIn {output : Path} {map : Bool}
    (h : (linkIn store inputs output ⟨map, false⟩).1 = .ok ()) :
    ∃ modules image, Loads store inputs modules ∧ link modules = .ok image ∧
      readIn (linkIn store inputs output ⟨map, false⟩).2 output = .ok image.bytes := by
  have hresult : linkIn store inputs output ⟨map, false⟩ = (.ok (), (linkIn store inputs output ⟨map, false⟩).2) := by
    rw [← h]
  obtain ⟨modules, content, hload, ⟨image, hlink, rfl⟩, hwrite⟩ := linkIn_eq_ok_iff.mp hresult
  exact ⟨modules, image, hload, hlink, LawfulFileStore.read_of_write hwrite⟩

theorem exists_combined (hload : Loads start inputs modules) (hmerge : Link.Mergeable modules) {ab : Path} (map : Bool)
    (hab : Writable start ab) :
    ∃ code middle, ObjectFile.Written (Link.deferredCode modules) code ∧
      linkIn start inputs ab ⟨map, true⟩ = (.ok (), middle) ∧
      readIn middle ab = .ok (ObjectFile.header ++
        Bytes.ofText (Link.combined ab.moduleName modules).manifest.text ++ 0x0A :: code) ∧
      ∀ other, Writable start other → Writable middle other := by
  obtain ⟨code, hwritten⟩ := Link.exists_written_deferredCode hload.exists_written
  have hdata : ObjectFile.write (Link.combined ab.moduleName modules) = .ok _ :=
    ObjectFile.write_eq_ok_iff.mpr ⟨code, ObjectFile.writeCode_of_written hwritten, rfl⟩
  have hpartial : partialLink ab.moduleName modules = .ok (Link.combined ab.moduleName modules) :=
    Link.partialLink_eq_ok_iff.mpr ⟨hmerge, rfl⟩
  obtain ⟨middle, hwrite⟩ := hab (ObjectFile.header ++
    Bytes.ofText (Link.combined ab.moduleName modules).manifest.text ++ 0x0A :: code)
  refine ⟨code, middle, hwritten, ?_, LawfulFileStore.read_of_write hwrite, ?_⟩
  · exact linkIn_eq_ok_iff.mpr ⟨modules, _, hload, ⟨_, hpartial, hdata⟩, hwrite⟩
  · intro other hother
    exact LawfulFileStore.writable_of_write hwrite hother

end Files

/-- Where files link, they also link in two stages, and to the same image, whatever holds them. The names in their code
must fit into a manifest, and the code of the combined file must not be nested too deeply, or else the second stage refuses
to read it. -/
theorem linkIn_staged {σ : Type} [FileStore (StateM σ)] [LawfulFileStore σ] {store start : σ} {inputs : List Path}
    {out ab out' : Path} {map map' map'' : Bool}
    (hdirect : (Files.linkIn store inputs out ⟨map, false⟩).1 = .ok ())
    (hinputs : ∀ path ∈ inputs, Files.readIn start path = Files.readIn store path)
    (hab : Files.Writable start ab) (hout : Files.Writable start out') :
    ∃ modules middle, Files.Loads store inputs modules ∧
      Files.linkIn start inputs ab ⟨map', true⟩ = (.ok (), middle) ∧
      ((∀ m ∈ modules, ∀ name ∈ m.code.mentions, name.Plain) →
        ((Link.deferredCode modules).depth ≤ 1024 →
          ∃ after bytes, Files.linkIn middle [ab] out' ⟨map'', false⟩ = (.ok (), after) ∧
            Files.readIn after out' = .ok bytes ∧
            Files.readIn (Files.linkIn store inputs out ⟨map, false⟩).2 out = .ok bytes) ∧
        (1024 < (Link.deferredCode modules).depth →
          ∃ deep, Files.linkIn middle [ab] out' ⟨map'', false⟩ =
            (.error (.badObjectFile ab (.tooDeep deep)), middle))) := by
  obtain ⟨modules, image, hload, hlink, himage⟩ := Files.exists_image_of_linkIn hdirect
  obtain ⟨⟨hmerge, hresolved⟩, rfl⟩ := Link.link_eq_ok_iff.mp hlink
  obtain ⟨code, middle, hwritten, hfirst, hread, hwritable⟩ :=
    Files.exists_combined (hload.of_read_eq hinputs) hmerge map' hab
  refine ⟨modules, middle, hload, hfirst, ?_⟩
  intro hnames
  have hplain := Link.plain_combined ab.moduleName hload.plain hnames
  obtain ⟨hshallow, hdeep⟩ := Files.moduleIn_combined hwritten hread hplain
  constructor
  · intro hdepth
    have hsecond : Files.Loads middle [ab] [Link.combined ab.moduleName modules] := .cons (hshallow hdepth) .nil
    obtain ⟨staged, hstaged, hbytes⟩ := Link.link_combined ab.moduleName hmerge hresolved
    obtain ⟨after, hwrite⟩ := hwritable out' hout staged.bytes
    refine ⟨after, staged.bytes, ?_, LawfulFileStore.read_of_write hwrite, ?_⟩
    · exact Files.linkIn_eq_ok_iff.mpr ⟨_, _, hsecond, ⟨staged, hstaged, rfl⟩, hwrite⟩
    · rw [himage, hbytes]
  · intro hdepth
    obtain ⟨deep, hmodule⟩ := hdeep hdepth
    refine ⟨deep, Files.linkIn_of_error ?_ _ _⟩
    rw [Files.loadedIn, hmodule]
    rfl

theorem linkIn_staged_pair :
    let volume := (Volume.empty.put [Bytes.ofText "a"] (ObjectFile.header ++ [0x0A, 0x52, 1, 0, 0x78])).put
      [Bytes.ofText "b"] (ObjectFile.header ++ [0x0A, 0x44, 1, 0, 0x78, 0x42, 1, 0, 7])
    ∃ middle after,
      Files.linkIn volume [Bytes.ofText "a", Bytes.ofText "b"] (Bytes.ofText "ab") ⟨false, true⟩ = (.ok (), middle) ∧
      Files.linkIn middle [Bytes.ofText "ab"] (Bytes.ofText "y") ⟨false, false⟩ = (.ok (), after) ∧
      after.read (Bytes.ofText "y") = .ok [2, 0, 7] := by
  intro volume
  have hdirect : (Files.linkIn volume [Bytes.ofText "a", Bytes.ofText "b"] (Bytes.ofText "x") ⟨false, false⟩).1 =
      .ok () := by
    decide +kernel
  have himage : Files.readIn (Files.linkIn volume [Bytes.ofText "a", Bytes.ofText "b"] (Bytes.ofText "x")
      ⟨false, false⟩).2 (Bytes.ofText "x") = .ok [2, 0, 7] := by
    decide +kernel
  have hab : Files.Writable volume (Bytes.ofText "ab") :=
    Volume.writable_iff.mpr ⟨[Bytes.ofText "ab"], by decide +kernel, by decide +kernel⟩
  have hy : Files.Writable volume (Bytes.ofText "y") :=
    Volume.writable_iff.mpr ⟨[Bytes.ofText "y"], by decide +kernel, by decide +kernel⟩
  obtain ⟨modules, middle, hload, hfirst, hstaged⟩ :=
    @linkIn_staged Volume _ _ _ _ _ _ _ _ _ false false hdirect (fun _ _ => rfl) hab hy
  have hmodules : modules = [⟨"a", [], .ref "x"⟩, ⟨"b", [], .label "x" (.bytes [7])⟩] := by
    have hresult : (Files.loadedIn volume [Bytes.ofText "a", Bytes.ofText "b"]).result =
        .ok [⟨"a", [], .ref "x"⟩, ⟨"b", [], .label "x" (.bytes [7])⟩] := by
      decide +kernel
    rw [Files.result_loadedIn_eq_ok_iff.mpr hload] at hresult
    exact Except.ok.inj hresult
  subst hmodules
  obtain ⟨after, bytes, hlast, hread, hsame⟩ := (hstaged (by decide)).1 (by decide)
  rw [himage] at hsame
  cases hsame
  exact ⟨middle, after, hfirst, hlast, hread⟩

def Code.nested : Nat → Code
  | 0 => .bytes []
  | levels + 1 => .seq (nested levels) (.bytes [])

def Module.nested (name : ModuleName) (levels : Nat) : Module :=
  ⟨name, [], Code.nested levels⟩

theorem Code.depth_nested (levels : Nat) : (nested levels).depth = levels := by
  induction levels with
  | zero => rfl
  | succ levels ih => simp [nested, depth, ih]

theorem Code.items_nested (levels : Nat) : (nested levels).items = [] := by
  induction levels with
  | zero => rfl
  | succ levels ih => simp [nested, items, ih]

namespace ObjectFile

def nestedCode : Nat → Bytes
  | 0 => [tagBytes, 0, 0]
  | levels + 1 => tagSeq :: nestedCode levels ++ [tagBytes, 0, 0]

def nestedFile (levels : Nat) : Bytes :=
  header ++ 0x0A :: nestedCode levels

theorem written_nested (levels : Nat) : Written (Code.nested levels) (nestedCode levels) := by
  have hempty : Written (.bytes []) [tagBytes, 0, 0] := .bytes (Nat.zero_le _)
  induction levels with
  | zero => exact hempty
  | succ levels ih => exact .seq ih hempty

theorem read_nestedFile (name : ModuleName) {levels : Nat} (h : levels ≤ maxDepth) :
    read name (nestedFile levels) = .ok (Module.nested name levels) := by
  have hdepth : (Code.nested levels).depth ≤ maxDepth := by
    rw [Code.depth_nested]
    exact h
  exact read_eq_ok_iff.mpr ⟨rfl, hdepth, "", nestedCode levels, ⟨rfl, .nil⟩, rfl, written_nested levels⟩

end ObjectFile

theorem Link.mergeable_of_no_symbols {modules : List Module} (h : ∀ m ∈ modules, m.manifest = [] ∧ m.code.items = []) :
    Mergeable modules ∧ Resolved modules := by
  have hlabels : ∀ m ∈ modules, m.code.labels = [] := by
    intro m hm
    rw [Code.labels, (h m hm).2]
    rfl
  have hoffset : ∀ m ∈ modules, ∀ name, m.offset? name = none := by
    intro m hm name
    rw [Module.offset?, Module.binding?, Module.symbols, (h m hm).1, hlabels m hm]
    rfl
  refine ⟨⟨?_, ?_, ?_⟩, ?_⟩
  · intro m hm label hlabel
    rw [hlabels m hm] at hlabel
    cases hlabel
  · intro placed hplaced name offset hdefined
    rw [hoffset _ (mem_of_mem_layoutFrom hplaced)] at hdefined
    cases hdefined
  · apply List.pairwise_iff_getElem.mpr
    intro i j hi hj _ name hboth
    rw [hoffset _ (List.getElem_mem hi)] at hboth
    cases hboth.1
  · intro m hm name hname
    rw [Code.refs, (h m hm).2] at hname
    cases hname

/-- A file at the limit of depth links with another one at once, and combined with it is too deep. -/
theorem Files.linkIn_nested {σ : Type} [FileStore (StateM σ)] [LawfulFileStore σ] {store : σ} {a b ab out : Path}
    (map : Bool) (ha : readIn store a = .ok (ObjectFile.nestedFile ObjectFile.maxDepth))
    (hb : readIn store b = .ok (ObjectFile.nestedFile 0)) (hab : Writable store ab) (hout : Writable store out) :
    (linkIn store [a, b] out ⟨map, false⟩).1 = .ok () ∧
      ∃ middle deep, linkIn store [a, b] ab ⟨map, true⟩ = (.ok (), middle) ∧ Writable middle out ∧
        linkIn middle [ab] out ⟨map, false⟩ = (.error (.badObjectFile ab (.tooDeep deep)), middle) := by
  have hfirst := moduleIn_eq_ok_iff.mpr ⟨_, ha, ObjectFile.read_nestedFile _ (Nat.le_refl _)⟩
  have hsecond := moduleIn_eq_ok_iff.mpr ⟨_, hb, ObjectFile.read_nestedFile _ (Nat.zero_le _)⟩
  have hload : Loads store [a, b] [.nested a.moduleName ObjectFile.maxDepth, .nested b.moduleName 0] :=
    .cons hfirst (.cons hsecond .nil)
  have hempty : ∀ m ∈ [Module.nested a.moduleName ObjectFile.maxDepth, .nested b.moduleName 0],
      m.manifest = [] ∧ m.code.items = [] := by
    simp [Module.nested, Code.items_nested]
  obtain ⟨hmerge, hresolved⟩ := Link.mergeable_of_no_symbols hempty
  constructor
  · obtain ⟨after, hwrite⟩ := hout (Link.imageOf _).bytes
    have hyields : Yields out ⟨map, false⟩ _ _ := ⟨_, Link.link_eq_ok_iff.mpr ⟨⟨hmerge, hresolved⟩, rfl⟩, rfl⟩
    rw [linkIn_eq_ok_iff.mpr ⟨_, _, hload, hyields, hwrite⟩]
  · obtain ⟨code, middle, hwritten, hstage, hread, hwritable⟩ := exists_combined hload hmerge map hab
    have hdepth : ObjectFile.maxDepth <
        (Link.deferredCode [.nested a.moduleName ObjectFile.maxDepth, .nested b.moduleName 0]).depth := by
      change _ < max (Code.nested ObjectFile.maxDepth).depth (Code.nested 0).depth + 1
      rw [Code.depth_nested, Code.depth_nested]
      omega
    have hnames : ∀ m ∈ [Module.nested a.moduleName ObjectFile.maxDepth, .nested b.moduleName 0],
        ∀ name ∈ m.code.mentions, name.Plain := by
      intro m hm name hname
      rw [Code.mem_mentions_iff, (hempty m hm).2] at hname
      simp at hname
    have hplain := Link.plain_combined ab.moduleName hload.plain hnames
    obtain ⟨deep, hmodule⟩ := (moduleIn_combined hwritten hread hplain).2 hdepth
    refine ⟨middle, deep, hstage, hwritable out hout, linkIn_of_error ?_ _ _⟩
    rw [loadedIn, hmodule]
    rfl

/-- Files may link at once and not in stages: a file at the limit of depth is too deep once it is combined with
another, and the label of a file may have a blank in its name, which no manifest can hold. -/
theorem linkIn_not_staged :
    (let volume := (Volume.empty.put [Bytes.ofText "a"] (ObjectFile.nestedFile 1024)).put
      [Bytes.ofText "b"] (ObjectFile.nestedFile 0)
    let first := Files.linkIn volume [Bytes.ofText "a", Bytes.ofText "b"] (Bytes.ofText "ab") ⟨false, true⟩
    (Files.linkIn volume [Bytes.ofText "a", Bytes.ofText "b"] (Bytes.ofText "x") ⟨false, false⟩).1 = .ok () ∧
      first.1 = .ok () ∧ first.2.Writable (Bytes.ofText "x") ∧
      (Files.linkIn first.2 [Bytes.ofText "ab"] (Bytes.ofText "x") ⟨false, false⟩).1 ≠ .ok ()) ∧
    let volume := Volume.empty.put [Bytes.ofText "a"]
      (ObjectFile.header ++ [0x0A, 0x44, 3, 0, 0x78, 0x20, 0x79, 0x42, 0, 0])
    let first := Files.linkIn volume [Bytes.ofText "a"] (Bytes.ofText "ab") ⟨false, true⟩
    (Files.linkIn volume [Bytes.ofText "a"] (Bytes.ofText "x") ⟨false, false⟩).1 = .ok () ∧ first.1 = .ok () ∧
      (Files.linkIn first.2 [Bytes.ofText "ab"] (Bytes.ofText "x") ⟨false, false⟩).1 ≠ .ok () := by
  refine ⟨?_, by decide +kernel⟩
  intro volume first
  have ha : Files.readIn volume (Bytes.ofText "a") = .ok (ObjectFile.nestedFile 1024) := rfl
  have hb : Files.readIn volume (Bytes.ofText "b") = .ok (ObjectFile.nestedFile 0) := rfl
  have hab : Files.Writable volume (Bytes.ofText "ab") := Volume.writable_iff.mpr ⟨[Bytes.ofText "ab"], rfl, nofun⟩
  have hout : Files.Writable volume (Bytes.ofText "x") := Volume.writable_iff.mpr ⟨[Bytes.ofText "x"], rfl, nofun⟩
  obtain ⟨hdirect, middle, deep, hfirst, hwritable, hsecond⟩ := Files.linkIn_nested false ha hb hab hout
  have hstage : first = (.ok (), middle) := hfirst
  rw [hstage, hsecond]
  exact ⟨hdirect, rfl, Volume.writable_iff.mp hwritable, nofun⟩

end StackLink
