import StackLink.Proofs.Files

/-!
# Linking files: all or nothing

Apart from the writing itself, whatever can go wrong in a link of files goes wrong before the output is opened. So a
link that fails before it leaves the store alone, and one that goes well changes a single file. Of the files that hold no
module the first is reported, but those with malformed manifests only if there are no others, and then all their lines at
once.
-/
namespace StackLink

namespace ObjectFile

/-- The text between the header of a file and its first empty line. -/
def manifestText? (data : Bytes) : Option String := do
  let body ← afterHeader? data
  let length ← emptyLine? 0 true body
  Bytes.toText? (body.take length)

theorem manifestText?_of_sections {data code : Bytes} {text : String} (h : Sections data (Bytes.ofText text) code) :
    manifestText? data = some text := by
  have hbody : afterHeader? data = some (Bytes.ofText text ++ 0x0A :: code) := by
    rw [h.eq, List.append_assoc, afterHeader?_append]
  simp only [manifestText?, hbody, h.emptyLine?_eq, Option.bind_eq_bind, Option.bind_some, List.take_left,
    Bytes.toText?_ofText]

end ObjectFile

namespace Files

variable {σ : Type} [FileStore (StateM σ)]

/-- What is wrong with a file that cannot be read, or that holds no module for another reason than its manifest. -/
def fault? (store : σ) (path : Path) : Option LinkerFailure :=
  match readIn store path with
  | .error e => some (.reading path e.cause)
  | .ok data =>
    match ObjectFile.read path.moduleName data with
    | .ok _ | .error (.manifest _) => none
    | .error cause => some (.badObjectFile path cause)

def malformedIn (store : σ) (path : Path) : List LinkError :=
  match readIn store path with
  | .error _ => []
  | .ok data => (ObjectFile.manifestText? data).elim [] (Manifest.malformedLines path.moduleName)

theorem moduleIn_cases (store : σ) (path : Path) :
    (fault? store path = none ∧ malformedIn store path = [] ∧ ∃ m, moduleIn store path = .ok m) ∨
    (fault? store path = none ∧ malformedIn store path ≠ [] ∧
      moduleIn store path = .error (.link ⟨malformedIn store path⟩)) ∨
    ∃ failure, fault? store path = some failure ∧ moduleIn store path = .error failure ∧
      ∀ cause, failure ≠ .link cause := by
  cases hdata : readIn store path with
  | error e =>
    refine .inr (.inr ⟨.reading path e.cause, ?_, ?_, fun _ => LinkerFailure.noConfusion⟩)
    · simp only [fault?, hdata]
    · simp only [moduleIn, hdata]
  | ok data =>
    have hlines (text : String) (code : Bytes) (h : ObjectFile.Sections data (Bytes.ofText text) code) :
        malformedIn store path = Manifest.malformedLines path.moduleName text := by
      simp only [malformedIn, hdata, ObjectFile.manifestText?_of_sections h, Option.elim_some]
    simp only [fault?, moduleIn, hdata, decode]
    cases hread : ObjectFile.read path.moduleName data with
    | ok m =>
      obtain ⟨_, _, text, code, hsections, hparse, _⟩ := ObjectFile.read_eq_ok_iff.mp hread
      exact .inl ⟨rfl, (hlines text code hsections).trans (Manifest.malformedLines_of_parse hparse), m, rfl⟩
    | error cause =>
      cases cause with
      | manifest errors =>
        obtain ⟨text, code, hsections, hparse⟩ := ObjectFile.exists_parse_of_read hread
        obtain ⟨rfl, hne⟩ := Manifest.eq_malformedLines_of_parse hparse
        rw [hlines text code hsections]
        exact .inr (.inl ⟨rfl, hne, rfl⟩)
      | _ => exact .inr (.inr ⟨_, rfl, rfl, fun _ => LinkerFailure.noConfusion⟩)

theorem stopped_loadedIn (store : σ) (inputs : List Path) :
    (loadedIn store inputs).stopped = inputs.findSome? (fault? store) := by
  induction inputs with
  | nil => rfl
  | cons path rest ih =>
    rw [loadedIn, List.findSome?_cons]
    rcases moduleIn_cases store path with
      ⟨hfault, _, m, hmodule⟩ | ⟨hfault, _, hmodule⟩ | ⟨failure, hfault, hmodule, hlink⟩
    · simp only [hmodule, hfault, ih]
    · simp only [hmodule, hfault, ih]
    · rw [hmodule, hfault]
      cases failure with
      | link cause => exact absurd rfl (hlink cause)
      | _ => rfl

theorem malformed_loadedIn {store : σ} {inputs : List Path} (h : inputs.findSome? (fault? store) = none) :
    (loadedIn store inputs).malformed = inputs.flatMap (malformedIn store) := by
  induction inputs with
  | nil => rfl
  | cons path rest ih =>
    have hall := List.findSome?_eq_none_iff.mp h
    have hrest := ih (List.findSome?_eq_none_iff.mpr fun other hother => hall other (List.mem_cons_of_mem _ hother))
    rw [loadedIn, List.flatMap_cons]
    rcases moduleIn_cases store path with ⟨_, hnone, m, hmodule⟩ | ⟨_, _, hmodule⟩ | ⟨failure, hfault, _⟩
    · simp only [hmodule, hnone, hrest, List.nil_append]
    · simp only [hmodule, hrest]
    · rw [hall path List.mem_cons_self] at hfault
      cases hfault

theorem result_of_fault {store : σ} {inputs : List Path} {failure : LinkerFailure}
    (h : inputs.findSome? (fault? store) = some failure) : (loadedIn store inputs).result = .error failure := by
  have hstopped : (loadedIn store inputs).stopped = some failure := by rw [stopped_loadedIn, h]
  rw [Loaded.result, hstopped]

theorem result_of_malformed {store : σ} {inputs : List Path} (h : inputs.findSome? (fault? store) = none)
    (hne : inputs.flatMap (malformedIn store) ≠ []) :
    (loadedIn store inputs).result = .error (.link ⟨inputs.flatMap (malformedIn store)⟩) := by
  have hstopped : (loadedIn store inputs).stopped = none := by rw [stopped_loadedIn, h]
  rw [Loaded.result, hstopped, malformed_loadedIn h]
  cases hlines : inputs.flatMap (malformedIn store) with
  | nil => exact absurd hlines hne
  | cons error errors => rfl

theorem phase_of_mem_malformedIn {store : σ} {path : Path} {error : LinkError}
    (h : error ∈ malformedIn store path) : error.phase = .load := by
  unfold malformedIn at h
  split at h
  · cases h
  · next data _ =>
    cases htext : ObjectFile.manifestText? data with
    | none => simp [htext] at h
    | some text =>
      rw [htext] at h
      exact Manifest.phase_of_mem_malformedLines h

theorem malformedIn_ne_nil {store : σ} {inputs : List Path} (h : inputs.findSome? (fault? store) = none)
    (hload : ∀ modules, ¬Loads store inputs modules) : inputs.flatMap (malformedIn store) ≠ [] := by
  intro hnil
  have hresult : (loadedIn store inputs).result = .ok (loadedIn store inputs).modules := by
    refine Loaded.result_eq_ok_iff.mpr ⟨?_, ?_, rfl⟩
    · rw [stopped_loadedIn, h]
    · rw [malformed_loadedIn h, hnil]
  exact hload _ (result_loadedIn_eq_ok_iff.mp hresult)

end Files

/-- Linking files is all or nothing, whatever holds them. A link that fails before the writing leaves the store as it was.
One that goes well, as it does if every input holds a module, these have a product and the output can be written, puts the
product there and changes no other place. Where some input holds no module, the first fault is reported, and without
faults every malformed line. In a volume, where also a failed write changes nothing, no failed link does. -/
theorem linkIn_all_or_nothing :
    (∀ (σ : Type) [FileStore (StateM σ)] [LawfulFileStore σ] (store : σ) (inputs : List Path) (output : Path)
        (options : Files.LinkOptions),
      (∀ failure after, Files.linkIn store inputs output options = (.error failure, after) → after = store ∨
        ∃ content cause, failure = .writing output cause ∧
          Files.writeIn store output content = (.error cause, after)) ∧
      (∀ after, Files.linkIn store inputs output options = (.ok (), after) →
        ∃ modules content place, Files.Loads store inputs modules ∧ Files.Yields output options modules content ∧
          Files.readIn after output = .ok content ∧ LawfulFileStore.target? store output = some place ∧
          ∀ other, other ≠ place → LawfulFileStore.node? after other = LawfulFileStore.node? store other) ∧
      (∀ modules content, Files.Loads store inputs modules → Files.Yields output options modules content →
        Files.Writable store output → ∃ after, Files.linkIn store inputs output options = (.ok (), after)) ∧
      (∀ failure, inputs.findSome? (Files.fault? store) = some failure →
        Files.linkIn store inputs output options = (.error failure, store)) ∧
      (inputs.findSome? (Files.fault? store) = none → (∀ modules, ¬Files.Loads store inputs modules) →
        Files.linkIn store inputs output options =
          (.error (.link ⟨inputs.flatMap (Files.malformedIn store)⟩), store) ∧
        inputs.flatMap (Files.malformedIn store) ≠ [] ∧
        ∀ error ∈ inputs.flatMap (Files.malformedIn store), error.phase = .load)) ∧
    ∀ (volume after : Volume) (inputs : List Path) (output : Path) (options : Files.LinkOptions)
      (failure : LinkerFailure), Files.linkIn volume inputs output options = (.error failure, after) →
        after = volume := by
  refine ⟨?_, ?_⟩
  · intro σ _ _ store inputs output options
    refine ⟨fun failure after => Files.linkIn_eq_error, ?_, ?_, ?_, ?_⟩
    · intro after h
      obtain ⟨modules, content, hload, hyields, hwrite⟩ := Files.linkIn_eq_ok_iff.mp h
      obtain ⟨place, hplace, hother⟩ := LawfulFileStore.frame_of_write hwrite
      exact ⟨modules, content, place, hload, hyields, LawfulFileStore.read_of_write hwrite, hplace, hother⟩
    · intro modules content hload hyields hwritable
      obtain ⟨after, hwrite⟩ := hwritable content
      exact ⟨after, Files.linkIn_eq_ok_iff.mpr ⟨modules, content, hload, hyields, hwrite⟩⟩
    · intro failure h
      exact Files.linkIn_of_error (Files.result_of_fault h) output options
    · intro h hload
      have hne := Files.malformedIn_ne_nil h hload
      refine ⟨Files.linkIn_of_error (Files.result_of_malformed h hne) output options, hne, ?_⟩
      intro error herror
      obtain ⟨path, _, hpath⟩ := List.mem_flatMap.mp herror
      exact Files.phase_of_mem_malformedIn hpath
  · intro volume after inputs output options failure h
    rcases Files.linkIn_eq_error h with hsame | ⟨content, cause, -, hwrite⟩
    · exact hsame
    · exact Volume.eq_of_writeIn_error hwrite

/-- A link into one of its inputs, and one where two manifests are malformed, with and without a missing file. -/
theorem linkIn_all_or_nothing_four :
    let a := Bytes.ofText "a"
    let b := Bytes.ofText "b"
    let c := Bytes.ofText "c"
    let d := Bytes.ofText "d"
    let volume := (((Volume.empty.put [a] (ObjectFile.header ++ [0x0A, 0x52, 1, 0, 0x78])).put
      [b] (ObjectFile.header ++ [0x0A, 0x44, 1, 0, 0x78, 0x42, 1, 0, 7])).put
      [c] (ObjectFile.header ++ Bytes.ofText "x y\nx D 3\n!\n" ++ [0x0A])).put
      [d] (ObjectFile.header ++ Bytes.ofText "D 1\n" ++ [0x0A])
    (∃ after, Files.linkIn volume [a, b] a ⟨false, false⟩ = (.ok (), after) ∧ after.read a = .ok [2, 0, 7] ∧
      ∀ other, other ≠ [a] → after.node? other = volume.node? other) ∧
    Files.linkIn volume [c, d, Bytes.ofText "e", a] a ⟨false, true⟩ =
      (.error (.reading (Bytes.ofText "e") .notFound), volume) ∧
    Files.linkIn volume [c, a, d] a ⟨false, true⟩ =
      (.error (.link ⟨[.malformedManifest "c" 1 "x y", .malformedManifest "c" 3 "!",
        .malformedManifest "d" 1 "D 1"]⟩), volume) := by
  intro a b c d volume
  refine ⟨?_, ?_, ?_⟩
  · have hresult : (Files.linkIn volume [a, b] a ⟨false, false⟩).1 = .ok () := by decide +kernel
    have hlink : Files.linkIn volume [a, b] a ⟨false, false⟩ =
        (.ok (), (Files.linkIn volume [a, b] a ⟨false, false⟩).2) := by
      rw [← hresult]
    obtain ⟨_, _, place, _, _, _, hplace, hother⟩ := (linkIn_all_or_nothing.1 Volume volume _ _ _).2.1 _ hlink
    have hlocation : volume.target? a = some [a] := by decide +kernel
    have hsame : some place = some [a] := hplace.symm.trans hlocation
    cases hsame
    exact ⟨_, hlink, by decide +kernel, hother⟩
  · exact (linkIn_all_or_nothing.1 Volume volume _ _ _).2.2.2.1 _ (by decide +kernel)
  · have hfault : [c, a, d].findSome? (Files.fault? volume) = none := by decide +kernel
    have hload : ∀ modules, ¬Files.Loads volume [c, a, d] modules := by
      intro modules h
      cases h with
      | cons hfirst _ =>
        have herror : (Files.moduleIn volume c).toOption = none := by decide +kernel
        rw [hfirst] at herror
        cases herror
    have hlines : [c, a, d].flatMap (Files.malformedIn volume) = [.malformedManifest "c" 1 "x y",
        .malformedManifest "c" 3 "!", .malformedManifest "d" 1 "D 1"] := by
      decide +kernel
    have hlink := ((linkIn_all_or_nothing.1 Volume volume [c, a, d] a ⟨false, true⟩).2.2.2.2 hfault hload).1
    rw [hlines] at hlink
    exact hlink

end StackLink
