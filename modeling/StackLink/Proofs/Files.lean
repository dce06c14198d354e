import StackLink.Files.Link
import StackLink.Proofs.ObjectFile
import StackLink.Proofs.Volume

/-!
# Linking the files of a store

Linking files is reading them, linking the modules that they hold and writing the result. Only the last step
changes the store. All that is needed of a store is that reading leaves it alone and that writing a file changes the one
place that its path names.
-/
namespace StackLink

namespace Files

section Store

variable {σ : Type} [FileStore (StateM σ)]

def readIn (store : σ) (path : Path) : Except ReadError Bytes :=
  ((FileStore.read path : StateM σ (Except ReadError Bytes)).run store).1

def writeIn (store : σ) (path : Path) (content : Bytes) : Except FileError Unit × σ :=
  (FileStore.write path content : StateM σ (Except FileError Unit)).run store

def Writable (store : σ) (path : Path) : Prop :=
  ∀ content, ∃ after, writeIn store path content = (.ok (), after)

end Store
end Files

/-- A store that holds files at places, and what programs may rely on in it. A failed write may leave it in any state. -/
class LawfulFileStore (σ : Type) [FileStore (StateM σ)] where
  Place : Type
  node? : σ → Place → Option FileNode
  /-- the place where a path would have a file written -/
  target? : σ → Path → Option Place
  state_read (store : σ) (path : Path) :
    ((FileStore.read path : StateM σ (Except ReadError Bytes)).run store).2 = store
  read_of_write {store after : σ} {path : Path} {content : Bytes} :
    Files.writeIn store path content = (.ok (), after) → Files.readIn after path = .ok content
  frame_of_write {store after : σ} {path : Path} {content : Bytes} :
    Files.writeIn store path content = (.ok (), after) →
      ∃ place, target? store path = some place ∧ ∀ other, other ≠ place → node? after other = node? store other
  writable_of_write {store after : σ} {path other : Path} {content : Bytes} :
    Files.writeIn store path content = (.ok (), after) → Files.Writable store other → Files.Writable after other

namespace Volume

theorem writeIn_of_ok {volume after : Volume} {path : Path} {content : Bytes}
    (h : volume.write path content = .ok after) : Files.writeIn volume path content = (.ok (), after) := by
  simp only [Files.writeIn, FileStore.write, StateT.run, h]

/-- A failed write leaves a volume alone. -/
theorem writeIn_of_error {volume : Volume} {path : Path} {content : Bytes} {cause : FileError}
    (h : volume.write path content = .error cause) : Files.writeIn volume path content = (.error cause, volume) := by
  simp only [Files.writeIn, FileStore.write, StateT.run, h]

theorem writeIn_eq_ok_iff {volume after : Volume} {path : Path} {content : Bytes} :
    Files.writeIn volume path content = (.ok (), after) ↔ volume.write path content = .ok after := by
  cases h : volume.write path content with
  | ok changed => simp [writeIn_of_ok h]
  | error cause => simp [writeIn_of_error h]

theorem eq_of_writeIn_error {volume after : Volume} {path : Path} {content : Bytes} {cause : FileError}
    (hwrite : Files.writeIn volume path content = (.error cause, after)) : after = volume := by
  cases h : volume.write path content with
  | ok changed => simp [writeIn_of_ok h] at hwrite
  | error found =>
    rw [writeIn_of_error h] at hwrite
    exact (congrArg Prod.snd hwrite).symm

theorem writable_iff {volume : Volume} {path : Path} : Files.Writable volume path ↔ volume.Writable path := by
  constructor
  · intro h
    obtain ⟨after, hafter⟩ := h []
    obtain ⟨location, hlocation, hnode, -⟩ := write_eq_ok_iff.mp (writeIn_eq_ok_iff.mp hafter)
    exact ⟨location, hlocation, hnode⟩
  · intro h content
    obtain ⟨after, hafter⟩ := h.exists_write content
    exact ⟨after, writeIn_eq_ok_iff.mpr hafter⟩

/-- A location is the target of a path that names it and does not end in a slash. -/
def target? (volume : Volume) (path : Path) : Option Location :=
  match volume.newLocation path with
  | .ok (location, false) => some location
  | _ => none

instance : LawfulFileStore Volume where
  Place := Location
  node? := node?
  target? := target?
  state_read _ _ := rfl
  read_of_write h := read_of_write (writeIn_eq_ok_iff.mp h)
  frame_of_write h := by
    obtain ⟨location, hlocation, hnode, rfl⟩ := write_eq_ok_iff.mp (writeIn_eq_ok_iff.mp h)
    refine ⟨location, by rw [target?, hlocation], ?_⟩
    intro other hother
    rw [node?_put hnode, if_neg hother.symm]
  writable_of_write h hother := writable_iff.mpr ((writable_iff.mp hother).of_write (writeIn_eq_ok_iff.mp h))

end Volume

namespace Files

variable {σ : Type} [FileStore (StateM σ)]

def moduleIn (store : σ) (path : Path) : Except LinkerFailure Module :=
  match readIn store path with
  | .ok data => decode path data
  | .error e => .error (.reading path e.cause)

def loadedIn (store : σ) : List Path → Loaded
  | [] => ⟨[], [], none⟩
  | path :: rest =>
    match moduleIn store path with
    | .ok object => { loadedIn store rest with modules := object :: (loadedIn store rest).modules }
    | .error (.link failure) =>
      { loadedIn store rest with malformed := failure.errors ++ (loadedIn store rest).malformed }
    | .error failure => ⟨[], [], some failure⟩

def linkIn (store : σ) (inputs : List Path) (output : Path) (options : LinkOptions) : Except LinkerFailure Unit × σ :=
  let (report, after) := (linkFiles inputs output options : StateM σ LinkReport).run store
  (report.result, after)

theorem moduleIn_eq_ok_iff {store : σ} {path : Path} {m : Module} :
    moduleIn store path = .ok m ↔
      ∃ data, readIn store path = .ok data ∧ ObjectFile.read path.moduleName data = .ok m := by
  cases hdata : readIn store path with
  | error e => simp [moduleIn, hdata]
  | ok data =>
    simp only [moduleIn, hdata, decode, Except.ok.injEq, exists_eq_left']
    cases hread : ObjectFile.read path.moduleName data with
    | ok object => simp
    | error cause => cases cause <;> simp

theorem errors_ne_nil_of_moduleIn {store : σ} {path : Path} {failure : LinkFailure}
    (h : moduleIn store path = .error (.link failure)) : failure.errors ≠ [] := by
  cases hdata : readIn store path with
  | error e => simp [moduleIn, hdata] at h
  | ok data =>
    simp only [moduleIn, hdata, decode] at h
    split at h
    · cases h
    · next errors hread =>
      cases h
      obtain ⟨_, _, _, hparse⟩ := ObjectFile.exists_parse_of_read hread
      exact (Manifest.eq_malformedLines_of_parse hparse).2
    · cases h

theorem Loaded.result_eq_ok_iff {loaded : Loaded} {modules : List Module} :
    loaded.result = .ok modules ↔ loaded.stopped = none ∧ loaded.malformed = [] ∧ loaded.modules = modules := by
  obtain ⟨found, malformed, stopped⟩ := loaded
  cases stopped <;> cases malformed <;> simp [result]

def Loads (store : σ) (inputs : List Path) (modules : List Module) : Prop :=
  List.Forall₂ (fun path m => moduleIn store path = .ok m) inputs modules

theorem result_loadedIn_eq_ok_iff {store : σ} {inputs : List Path} {modules : List Module} :
    (loadedIn store inputs).result = .ok modules ↔ Loads store inputs modules := by
  rw [Loaded.result_eq_ok_iff]
  induction inputs generalizing modules with
  | nil => simp [loadedIn, Loads, eq_comm]
  | cons path rest ih =>
    rw [Loads, List.forall₂_cons_left_iff, loadedIn]
    cases hmodule : moduleIn store path with
    | ok object =>
      simp only [Except.ok.injEq]
      constructor
      · intro h
        obtain ⟨hstopped, hmalformed, rfl⟩ := h
        exact ⟨object, _, rfl, ih.mp ⟨hstopped, hmalformed, rfl⟩, rfl⟩
      · intro h
        obtain ⟨_, later, rfl, hlater, rfl⟩ := h
        obtain ⟨hstopped, hmalformed, rfl⟩ := ih.mpr hlater
        exact ⟨hstopped, hmalformed, rfl⟩
    | error failure =>
      cases failure with
      | link failure => simp [errors_ne_nil_of_moduleIn hmodule]
      | reading path cause => simp
      | writing path cause => simp
      | badObjectFile path cause => simp

/-- What linking modules into a file leaves there: the bytes of their image, or the object file of the modules
combined. -/
def Yields (output : Path) (options : LinkOptions) (modules : List Module) (content : Bytes) : Prop :=
  if options.combine then
    ∃ combined, partialLink output.moduleName modules = .ok combined ∧ ObjectFile.write combined = .ok content
  else ∃ image, link modules = .ok image ∧ image.bytes = content

def product (output : Path) (options : LinkOptions) (modules : List Module) : Except LinkerFailure Bytes :=
  if options.combine then do
    let combined ← (partialLink output.moduleName modules).mapError .link
    (ObjectFile.write combined).mapError (.badObjectFile output)
  else do
    let image ← (link modules).mapError .link
    return image.bytes

theorem product_eq_ok_iff {output : Path} {options : LinkOptions} {modules : List Module} {content : Bytes} :
    product output options modules = .ok content ↔ Yields output options modules content := by
  rw [product, Yields]
  split
  · rw [bind_eq_ok_iff]
    refine exists_congr fun combined => ?_
    rw [mapError_eq_ok_iff, mapError_eq_ok_iff]
  · rw [bind_eq_ok_iff]
    refine exists_congr fun image => ?_
    rw [mapError_eq_ok_iff]
    exact and_congr_right fun _ => ⟨Except.ok.inj, congrArg Except.ok⟩

def written (store : σ) (output : Path) (content : Bytes) : Except LinkerFailure Unit × σ :=
  ((writeIn store output content).1.mapError (.writing output), (writeIn store output content).2)

theorem run_writeBytes (store : σ) (path : Path) (content : Bytes) :
    (writeBytes path content : StateM σ (Except LinkerFailure Unit)).run store = written store path content := by
  rw [writeBytes, StateT.run_bind, written, writeIn]
  generalize (FileStore.write path content : StateM σ (Except FileError Unit)).run store = outcome
  rcases outcome with ⟨_ | _, after⟩
  · rfl
  · rfl

private theorem run_bind_eq {σ α β : Type} (first : StateM σ α) (next : α → StateM σ β) (store : σ) :
    (first >>= next).run store = (next (first.run store).1).run (first.run store).2 :=
  rfl

theorem written_eq_ok_iff {store after : σ} {output : Path} {content : Bytes} :
    written store output content = (.ok (), after) ↔ writeIn store output content = (.ok (), after) := by
  rw [written]
  rcases writeIn store output content with ⟨_ | _, changed⟩
  · simp [error_mapError]
  · simp [ok_mapError]

section Lawful

variable [LawfulFileStore σ]

theorem run_readModule (store : σ) (path : Path) :
    (readModule path : StateM σ (Except LinkerFailure Module)).run store = (moduleIn store path, store) := by
  have hstate := LawfulFileStore.state_read store path
  rw [readModule, StateT.run_bind, moduleIn, readIn]
  generalize (FileStore.read path : StateM σ (Except ReadError Bytes)).run store = outcome at hstate ⊢
  obtain ⟨_ | _, after⟩ := outcome
  · subst hstate
    rfl
  · subst hstate
    rfl

theorem run_readModules (store : σ) (inputs : List Path) :
    (readModules inputs : StateM σ Loaded).run store = (loadedIn store inputs, store) := by
  induction inputs with
  | nil => rfl
  | cons path rest ih =>
    rw [loadedIn, readModules, StateT.run_bind, run_readModule]
    cases moduleIn store path with
    | ok object =>
      change (readModules rest >>= _ : StateM σ Loaded).run store = _
      rw [StateT.run_bind, ih]
      rfl
    | error failure =>
      cases failure with
      | link failure =>
        change (readModules rest >>= _ : StateM σ Loaded).run store = _
        rw [StateT.run_bind, ih]
        rfl
      | reading path cause => rfl
      | writing path cause => rfl
      | badObjectFile path cause => rfl

theorem linkIn_of_error {store : σ} {inputs : List Path} {failure : LinkerFailure}
    (h : (loadedIn store inputs).result = .error failure) (output : Path) (options : LinkOptions) :
    linkIn store inputs output options = (.error failure, store) := by
  simp only [linkIn, linkFiles, run_bind_eq, run_readModules, h]
  rfl

theorem linkIn_eq (store : σ) (inputs : List Path) (output : Path) (options : LinkOptions) :
    linkIn store inputs output options =
      match (loadedIn store inputs).result >>= product output options with
      | .error failure => (.error failure, store)
      | .ok content => written store output content := by
  cases hresult : (loadedIn store inputs).result with
  | error failure => exact linkIn_of_error hresult output options
  | ok modules =>
    obtain ⟨map, combine⟩ := options
    rw [ok_bind, product]
    cases combine with
    | false =>
      simp only [linkIn, linkFiles, run_bind_eq, run_readModules, hresult, Bool.false_eq_true, if_false]
      cases link modules with
      | error failure => rfl
      | ok image =>
        simp only [run_bind_eq, run_writeBytes]
        rfl
    | true =>
      simp only [linkIn, linkFiles, run_bind_eq, run_readModules, hresult, if_true]
      cases partialLink output.moduleName modules with
      | error failure => rfl
      | ok combined =>
        simp only [run_bind_eq, writeModule, ok_mapError, ok_bind]
        cases ObjectFile.write combined with
        | error cause => rfl
        | ok content =>
          dsimp only
          rw [run_writeBytes]
          rfl

theorem linkIn_of_yields {store : σ} {inputs : List Path} {output : Path} {options : LinkOptions}
    {modules : List Module} {content : Bytes} (hload : Loads store inputs modules)
    (hcontent : Yields output options modules content) :
    linkIn store inputs output options = written store output content := by
  rw [linkIn_eq, result_loadedIn_eq_ok_iff.mpr hload, ok_bind, product_eq_ok_iff.mpr hcontent]

theorem linkIn_cases (store : σ) (inputs : List Path) (output : Path) (options : LinkOptions) :
    (∃ failure, linkIn store inputs output options = (.error failure, store)) ∨
    ∃ modules content, Loads store inputs modules ∧ Yields output options modules content ∧
      linkIn store inputs output options = written store output content := by
  cases hproduct : (loadedIn store inputs).result >>= product output options with
  | error failure =>
    refine .inl ⟨failure, ?_⟩
    rw [linkIn_eq, hproduct]
  | ok content =>
    obtain ⟨modules, hresult, hcontent⟩ := bind_eq_ok_iff.mp hproduct
    have hload := result_loadedIn_eq_ok_iff.mp hresult
    have hyields := product_eq_ok_iff.mp hcontent
    exact .inr ⟨modules, content, hload, hyields, linkIn_of_yields hload hyields⟩

theorem linkIn_eq_ok_iff {store after : σ} {inputs : List Path} {output : Path} {options : LinkOptions} :
    linkIn store inputs output options = (.ok (), after) ↔
      ∃ modules content, Loads store inputs modules ∧ Yields output options modules content ∧
        writeIn store output content = (.ok (), after) := by
  constructor
  · intro h
    rcases linkIn_cases store inputs output options with ⟨failure, hfailure⟩ | ⟨modules, content, hload, hyields, hlink⟩
    · rw [hfailure] at h
      cases h
    · rw [hlink, written_eq_ok_iff] at h
      exact ⟨modules, content, hload, hyields, h⟩
  · intro h
    obtain ⟨modules, content, hload, hyields, hwrite⟩ := h
    rw [linkIn_of_yields hload hyields, written_eq_ok_iff]
    exact hwrite

/-- A link that fails leaves the store alone, unless it is the writing that fails. -/
theorem linkIn_eq_error {store after : σ} {inputs : List Path} {output : Path} {options : LinkOptions}
    {failure : LinkerFailure} (h : linkIn store inputs output options = (.error failure, after)) :
    after = store ∨
      ∃ content cause, failure = .writing output cause ∧ writeIn store output content = (.error cause, after) := by
  rcases linkIn_cases store inputs output options with ⟨found, hfound⟩ | ⟨modules, content, -, -, hlink⟩
  · rw [hfound] at h
    cases h
    exact .inl rfl
  · rw [hlink, written] at h
    rcases hwrite : writeIn store output content with ⟨cause | _, changed⟩
    · rw [hwrite] at h
      cases h
      exact .inr ⟨content, cause, rfl, hwrite⟩
    · rw [hwrite] at h
      cases h

end Lawful
end Files
end StackLink
