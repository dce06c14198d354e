import Mathlib.Data.List.Basic
import StackLink.Files.Store
import StackLink.Proofs.Outcome

/-!
# Reading back what was written

A file is put where no directory is, and paths only lead through directories. Whatever could be reached before
is still reached, and so is the new file.
-/
namespace StackLink.Volume

variable {volume after : Volume}

theorem node_of_walk {start found : Location} {part : Bytes} {rest : List Bytes}
    (h : volume.walk start (part :: rest) = .ok found) : volume.node? start = some .directory := by
  rw [walk] at h
  split at h
  · cases h
  · cases h
  · assumption

theorem walk_of_directory {start : Location} (h : volume.node? start = some .directory) (part : Bytes)
    (rest : List Bytes) :
    volume.walk start (part :: rest) =
      if part = [] ∨ part = Path.here then volume.walk start rest
      else if part = Path.above then volume.walk start.ascend rest
      else if (volume.node? (start ++ [part])).isSome then volume.walk (start ++ [part]) rest
      else .error .notFound := by
  rw [walk, h]
  cases volume.node? (start ++ [part]) <;> rfl

theorem walk_append (volume : Volume) (start : Location) (first second : List Bytes) :
    volume.walk start (first ++ second) = volume.walk start first >>= fun found => volume.walk found second := by
  induction first generalizing start with
  | nil => rfl
  | cons part rest ih =>
    rw [List.cons_append, walk, walk]
    cases volume.node? start with
    | none => rfl
    | some node =>
      cases node with
      | file content => rfl
      | directory =>
        dsimp only
        split
        · exact ih start
        · split
          · exact ih start.ascend
          · cases volume.node? (start ++ [part]) with
            | none => rfl
            | some node => exact ih (start ++ [part])

section Put

variable {location : Location} (h : volume.node? location ≠ some .directory) (content : Bytes)
include h

theorem node?_put (other : Location) :
    (volume.put location content).node? other =
      if location = other then some (.file content) else volume.node? other := by
  have hgiven : ¬location.isGiven := fun hgiven => h (if_pos hgiven)
  by_cases hother : location = other
  · subst hother
    rw [node?, if_neg hgiven, if_pos rfl]
    exact Std.ExtTreeMap.getElem?_insert_self
  · rw [if_neg hother, node?, node?]
    have hlookup : (volume.put location content).nodes[other]? = volume.nodes[other]? := by
      rw [put, Std.ExtTreeMap.getElem?_insert, if_neg]
      rw [Std.compare_eq_iff_eq]
      exact hother
    rw [hlookup]

theorem node?_put_eq_directory_iff (other : Location) :
    (volume.put location content).node? other = some .directory ↔ volume.node? other = some .directory := by
  rw [node?_put h]
  by_cases hother : location = other
  · subst hother
    simp [h]
  · rw [if_neg hother]

theorem isSome_node?_put {other : Location} (hother : (volume.node? other).isSome) :
    ((volume.put location content).node? other).isSome := by
  rw [node?_put h]
  split
  · rfl
  · exact hother

/-- A path leads where it led. -/
theorem walk_put {start found : Location} {parts : List Bytes} (hwalk : volume.walk start parts = .ok found) :
    (volume.put location content).walk start parts = .ok found := by
  induction parts generalizing start with
  | nil => exact hwalk
  | cons part rest ih =>
    have hdirectory := node_of_walk hwalk
    rw [walk_of_directory hdirectory] at hwalk
    rw [walk_of_directory ((node?_put_eq_directory_iff h content start).mpr hdirectory)]
    split
    · next hstay =>
      rw [if_pos hstay] at hwalk
      exact ih hwalk
    · next hstay =>
      rw [if_neg hstay] at hwalk
      split
      · next hup =>
        rw [if_pos hup] at hwalk
        exact ih hwalk
      · next hup =>
        rw [if_neg hup] at hwalk
        split at hwalk
        · next hsome =>
          rw [if_pos (isSome_node?_put h content hsome)]
          exact ih hwalk
        · cases hwalk

end Put

/-- A path names a place for a file: its last part is a name, and what stands before leads to a directory. -/
theorem newLocation_eq_ok_iff {path : Path} {location : Location} :
    volume.newLocation path = .ok (location, false) ↔
      ∃ start before last directory, route path = .ok (start, before ++ [last]) ∧
        volume.walk start before = .ok directory ∧ volume.node? directory = some .directory ∧
        last ≠ [] ∧ ¬(last = Path.here ∨ last = Path.above) ∧ location = directory ++ [last] := by
  constructor
  · intro h
    obtain ⟨⟨start, parts⟩, hroute, h⟩ := bind_eq_ok_iff.mp h
    cases hdrop : parts.reverse.dropWhile (· = []) with
    | nil => simp [hdrop] at h
    | cons last before =>
      simp only [hdrop] at h
      obtain ⟨directory, hwalk, h⟩ := bind_eq_ok_iff.mp h
      cases hnode : volume.node? directory with
      | none => simp [hnode] at h
      | some node =>
        cases node with
        | file content => simp [hnode] at h
        | directory =>
          by_cases hname : last = Path.here ∨ last = Path.above
          · simp [hnode, hname] at h
          · simp only [hnode, hname, if_false, Except.ok.injEq, Prod.mk.injEq, Bool.not_eq_false',
              List.isEmpty_iff] at h
            obtain ⟨hlocation, htrailing⟩ := h
            have hreverse : parts.reverse = last :: before := by
              rw [← List.takeWhile_append_dropWhile (p := (· = [])) (l := parts.reverse), htrailing, hdrop]
              rfl
            have hparts : parts = before.reverse ++ [last] := by
              rw [← List.reverse_cons, ← hreverse, List.reverse_reverse]
            have hlast : last ≠ [] := by
              intro hnil
              rw [hreverse, hnil] at htrailing
              simp at htrailing
            rw [hparts] at hroute
            exact ⟨start, before.reverse, last, directory, hroute, hwalk, hnode, hlast, hname, hlocation.symm⟩
  · intro h
    obtain ⟨start, before, last, directory, hroute, hwalk, hnode, hlast, hname, rfl⟩ := h
    have hdrop : (before ++ [last]).reverse.dropWhile (· = []) = last :: before.reverse := by
      simp [hlast]
    have htrailing : (before ++ [last]).reverse.takeWhile (· = []) = [] := by
      simp [hlast]
    simp only [newLocation, hroute, ok_bind, hdrop, htrailing, List.reverse_reverse, hwalk, hnode, hname, if_false]
    rfl

/-- The path names a place where there is a file or nothing. -/
def Writable (volume : Volume) (path : Path) : Prop :=
  ∃ location, volume.newLocation path = .ok (location, false) ∧ volume.node? location ≠ some .directory

theorem write_eq_ok_iff {path : Path} {content : Bytes} :
    volume.write path content = .ok after ↔
      ∃ location, volume.newLocation path = .ok (location, false) ∧ volume.node? location ≠ some .directory ∧
        after = volume.put location content := by
  rw [write, bind_eq_ok_iff, Prod.exists]
  refine exists_congr fun location => ?_
  constructor
  · intro h
    obtain ⟨slashed, hlocation, h⟩ := h
    cases slashed with
    | true => cases h
    | false =>
      refine ⟨hlocation, ?_⟩
      cases hnode : volume.node? location with
      | none =>
        simp only [hnode] at h
        cases h
        exact ⟨nofun, rfl⟩
      | some node =>
        cases node with
        | directory => simp [hnode] at h
        | file old =>
          simp only [hnode] at h
          cases h
          exact ⟨nofun, rfl⟩
  · intro h
    obtain ⟨hlocation, hnode, rfl⟩ := h
    refine ⟨false, hlocation, ?_⟩
    rcases hfound : volume.node? location with _ | _ | _
    · simp only [hfound]
      rfl
    · simp only [hfound]
      rfl
    · exact absurd hfound hnode

theorem Writable.exists_write {path : Path} (h : volume.Writable path) (content : Bytes) :
    ∃ after, volume.write path content = .ok after := by
  obtain ⟨location, hlocation, hnode⟩ := h
  exact ⟨_, write_eq_ok_iff.mpr ⟨location, hlocation, hnode, rfl⟩⟩

theorem newLocation_put {location : Location} (h : volume.node? location ≠ some .directory) (content : Bytes)
    {path : Path} {other : Location} (hother : volume.newLocation path = .ok (other, false)) :
    (volume.put location content).newLocation path = .ok (other, false) := by
  obtain ⟨start, before, last, directory, hroute, hwalk, hnode, hname⟩ := newLocation_eq_ok_iff.mp hother
  have hwalk' := walk_put h content hwalk
  have hnode' := (node?_put_eq_directory_iff h content directory).mpr hnode
  exact newLocation_eq_ok_iff.mpr ⟨start, before, last, directory, hroute, hwalk', hnode', hname⟩

theorem Writable.of_write {path other : Path} {content : Bytes} (hother : volume.Writable other)
    (h : volume.write path content = .ok after) : after.Writable other := by
  obtain ⟨location, _, hnode, rfl⟩ := write_eq_ok_iff.mp h
  obtain ⟨place, hplace, hplaceNode⟩ := hother
  refine ⟨place, newLocation_put hnode content hplace, ?_⟩
  rw [ne_eq, node?_put_eq_directory_iff hnode]
  exact hplaceNode

theorem find_of_newLocation {path : Path} {location : Location} {node : FileNode}
    (h : volume.newLocation path = .ok (location, false)) (hnode : volume.node? location = some node) :
    volume.find path = .ok node := by
  obtain ⟨start, before, last, directory, hroute, hwalk, hdirectory, hlast, hname, rfl⟩ :=
    newLocation_eq_ok_iff.mp h
  obtain ⟨hhere, habove⟩ := not_or.mp hname
  have hstep : volume.walk directory [last] = .ok (directory ++ [last]) := by
    rw [walk_of_directory hdirectory, if_neg (not_or.mpr ⟨hlast, hhere⟩), if_neg habove, hnode]
    rfl
  simp only [find, hroute, ok_bind, walk_append, hwalk, hstep, hnode]

theorem read_of_write {path : Path} {content : Bytes} (h : volume.write path content = .ok after) :
    after.read path = .ok content := by
  obtain ⟨location, hlocation, hnode, rfl⟩ := write_eq_ok_iff.mp h
  have hfile : (volume.put location content).node? location = some (.file content) := by
    rw [node?_put hnode, if_pos rfl]
  rw [read, find_of_newLocation (newLocation_put hnode content hlocation) hfile]

end StackLink.Volume
