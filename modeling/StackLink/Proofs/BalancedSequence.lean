import Mathlib.Algebra.GroupWithZero.Nat
import StackLink.Proofs.AssembledFiles
import StackLink.Proofs.Cells
import StackLink.Proofs.Consistency
import StackLink.Proofs.NormalForm

/-!
# Balanced trees and lists of nodes

A balanced tree is a list of nodes in another shape. Both passes go through it as they do through the nodes taken one
after another, each where the one before it ends, and it has no more levels above them than their number needs.
-/
namespace StackLink.Code

/-- Goes on measuring behind a first part, with the table that it left. An error ends the pass. -/
def andThen (first : SymbolTable × Except CodeError Nat)
    (next : SymbolTable → Nat → SymbolTable × Except CodeError Nat) : SymbolTable × Except CodeError Nat :=
  match first with
  | (table, .error e) => (table, .error e)
  | (table, .ok size) =>
    match next table size with
    | (final, .error e) => (final, .error e)
    | (final, .ok more) => (final, .ok (size + more))

def measureEach (position : Int) (table : SymbolTable) : List Code → SymbolTable × Except CodeError Nat
  | [] => (table, .ok 0)
  | node :: rest => andThen (node.measureAt position table) fun table size => measureEach (position + size) table rest

def both {α β γ : Type} (combine : α → β → γ) :
    Except (List CodeError) α → Except (List CodeError) β → Except (List CodeError) γ
  | .ok a, .ok b => .ok (combine a b)
  | .ok _, .error errors => .error errors
  | .error errors, .ok _ => .error errors
  | .error errors, .error others => .error (errors ++ others)

/-- Reduces nodes one after another, each where the one before it ends. Errors are collected from all of them. -/
def reduceEach (table : SymbolTable) (position : Int) :
    List Code → SymbolTable × Except (List CodeError) (List Reduced)
  | [] => (table, .ok [])
  | node :: rest =>
    let (middle, reduced) := node.reduceAt table position
    let (final, pieces) := reduceEach middle (position + node.size) rest
    (final, both List.cons reduced pieces)

theorem size_sequence (nodes : List Code) : (sequence nodes).size = (nodes.map size).sum := by
  induction nodes using sequence_induction with
  | nil => rfl
  | singleton node => rw [List.map_singleton, List.sum_singleton]
  | append left right hleft hright => rw [size, hleft, hright, List.map_append, List.sum_append]

theorem mentions_sequence (nodes : List Code) : (sequence nodes).mentions = nodes.flatMap mentions := by
  rw [mentions_eq, items_sequence, List.filterMap_flatMap]
  simp only [← mentions_eq]

@[simp] theorem andThen_zero (first : SymbolTable × Except CodeError Nat) :
    andThen first (fun table _ => (table, .ok 0)) = first := by
  rcases first with ⟨table, e | size⟩
  · rfl
  · rfl

theorem andThen_assoc (first : SymbolTable × Except CodeError Nat)
    (second third : SymbolTable → Nat → SymbolTable × Except CodeError Nat) :
    andThen first (fun table size => andThen (second table size) fun final more => third final (size + more)) =
      andThen (andThen first second) third := by
  rcases first with ⟨table, e | size⟩
  · rfl
  · rcases hsecond : second table size with ⟨middle, e | more⟩
    · simp only [andThen, hsecond]
    · rcases hthird : third middle (size + more) with ⟨final, e | rest⟩
      · simp only [andThen, hsecond, hthird]
      · simp only [andThen, hsecond, hthird, Nat.add_assoc]

theorem measureAt_seq (first second : Code) (position : Int) (table : SymbolTable) :
    (seq first second).measureAt position table =
      andThen (first.measureAt position table) fun table size => second.measureAt (position + size) table := by
  rcases hfirst : first.measureAt position table with ⟨middle, e | size⟩
  · simp only [measureAt, andThen, hfirst]
  · rcases hsecond : second.measureAt (position + size) middle with ⟨final, e | more⟩ <;>
      simp only [measureAt, andThen, hfirst, hsecond]

theorem measureEach_append (position : Int) (table : SymbolTable) (first second : List Code) :
    measureEach position table (first ++ second) =
      andThen (measureEach position table first) fun table size => measureEach (position + size) table second := by
  induction first generalizing position table with
  | nil =>
    rcases hsecond : measureEach position table second with ⟨final, e | size⟩ <;>
      simp [measureEach, andThen, hsecond]
  | cons node rest ih =>
    simp only [List.cons_append, measureEach, ih, ← andThen_assoc, Int.natCast_add, Int.add_assoc]

theorem measureAt_sequence (nodes : List Code) (position : Int) (table : SymbolTable) :
    (sequence nodes).measureAt position table = measureEach position table nodes := by
  induction nodes using sequence_induction generalizing position table with
  | nil => rfl
  | singleton node => exact (andThen_zero _).symm
  | append left right hleft hright => simp only [measureAt_seq, measureEach_append, hleft, hright]

theorem both_eq_ok_iff {α β γ : Type} {combine : α → β → γ} {first : Except (List CodeError) α}
    {second : Except (List CodeError) β} {c : γ} :
    both combine first second = .ok c ↔ ∃ a b, first = .ok a ∧ second = .ok b ∧ combine a b = c := by
  cases first <;> cases second <;> simp [both]

theorem both_append_cons (first : Except (List CodeError) Reduced) (second third : Except (List CodeError) (List Reduced)) :
    both List.append (both List.cons first second) third = both List.cons first (both List.append second third) := by
  cases first <;> cases second <;> cases third <;> simp [both]

theorem reduceEach_append (table : SymbolTable) (position : Int) (first second : List Code) :
    reduceEach table position (first ++ second) =
      let left := reduceEach table position first
      let right := reduceEach left.1 (position + (first.map size).sum) second
      (right.1, both List.append left.2 right.2) := by
  induction first generalizing table position with
  | nil =>
    simp only [List.nil_append, reduceEach, List.map_nil, List.sum_nil, Int.natCast_zero, Int.add_zero]
    rcases reduceEach table position second with ⟨final, errors | pieces⟩ <;> rfl
  | cons node rest ih =>
    simp only [List.cons_append, reduceEach, ih, List.map_cons, List.sum_cons, Int.natCast_add, Int.add_assoc]
    rw [both_append_cons]

theorem reduceAt_seq (first second : Code) (table : SymbolTable) (position : Int) :
    (seq first second).reduceAt table position =
      let left := first.reduceAt table position
      let right := second.reduceAt left.1 (position + first.size)
      (right.1, both (fun l r => ⟨join l.code r.code, l.size + r.size⟩) left.2 right.2) := by
  -- the second part starts behind what is left of the first, which is as long as the first was
  have hsize := (residue_substituteAt first position table).2
  have houtcome (code : Code) (table : SymbolTable) (position : Int) :
      code.reduceAt table position = ((code.substituteAt position table).table,
        if (code.substituteAt position table).errors.isEmpty then
          .ok ⟨(code.substituteAt position table).code, (code.substituteAt position table).size⟩
        else .error (code.substituteAt position table).errors) := by
    rw [reduceAt]
    cases (code.substituteAt position table).errors <;> rfl
  simp only [houtcome, substituteAt, hsize]
  congr 1
  cases (first.substituteAt position table).errors with
  | nil =>
    cases (second.substituteAt (position + first.size) (first.substituteAt position table).table).errors <;> rfl
  | cons error errors =>
    cases (second.substituteAt (position + first.size) (first.substituteAt position table).table).errors with
    | nil => simp [both]
    | cons other others => rfl

/-- Reduced code that has the content of pieces, one after another. -/
structure Joins (r : Reduced) (pieces : List Reduced) : Prop where
  size : r.size = (pieces.map Reduced.size).sum
  cells : r.code.cells = pieces.flatMap fun piece => piece.code.cells
  bytes : ∀ contents : List Bytes, pieces.map Reduced.code = contents.map .bytes → r.code = .bytes contents.flatten

theorem Joins.append {r s : Reduced} {left right : List Reduced} (hr : Joins r left) (hs : Joins s right) :
    Joins ⟨join r.code s.code, r.size + s.size⟩ (left ++ right) where
  size := by rw [List.map_append, List.sum_append, hr.size, hs.size]
  cells := by rw [cells_join, List.flatMap_append, hr.cells, hs.cells]
  bytes := by
    intro contents h
    rw [List.map_append, eq_comm, List.map_eq_append_iff] at h
    obtain ⟨before, after, rfl, hbefore, hafter⟩ := h
    rw [hr.bytes before hbefore.symm, hs.bytes after hafter.symm, join, List.flatten_append]

/-- Code and a list of pieces have come out of pass two alike. -/
inductive SameOutcome : Except (List CodeError) Reduced → Except (List CodeError) (List Reduced) → Prop where
  | ok {r : Reduced} {pieces : List Reduced} (h : Joins r pieces) : SameOutcome (.ok r) (.ok pieces)
  | error (errors : List CodeError) : SameOutcome (.error errors) (.error errors)

theorem SameOutcome.append {first second : Except (List CodeError) Reduced}
    {left right : Except (List CodeError) (List Reduced)} (hfirst : SameOutcome first left)
    (hsecond : SameOutcome second right) :
    SameOutcome (both (fun r s => ⟨join r.code s.code, r.size + s.size⟩) first second) (both List.append left right) := by
  cases hfirst with
  | ok hr =>
    cases hsecond with
    | ok hs => exact .ok (hr.append hs)
    | error errors => exact .error errors
  | error errors =>
    cases hsecond with
    | ok hs => exact .error errors
    | error others => exact .error (errors ++ others)

theorem SameOutcome.exists_joins {outcome : Except (List CodeError) Reduced} {pieces : List Reduced}
    (h : SameOutcome outcome (.ok pieces)) : ∃ r, outcome = .ok r ∧ Joins r pieces := by
  cases h with
  | ok hjoins => exact ⟨_, rfl, hjoins⟩

theorem reduceAt_sequence (nodes : List Code) (table : SymbolTable) (position : Int) :
    ((sequence nodes).reduceAt table position).1 = (reduceEach table position nodes).1 ∧
      SameOutcome ((sequence nodes).reduceAt table position).2 (reduceEach table position nodes).2 := by
  induction nodes using sequence_induction generalizing table position with
  | nil =>
    refine ⟨rfl, .ok ⟨rfl, rfl, ?_⟩⟩
    intro contents h
    rw [List.map_nil, eq_comm, List.map_eq_nil_iff] at h
    rw [h]
    rfl
  | singleton node =>
    rw [reduceEach]
    rcases node.reduceAt table position with ⟨final, errors | r⟩
    · exact ⟨rfl, .error errors⟩
    · refine ⟨rfl, .ok ⟨?_, ?_, ?_⟩⟩
      · simp
      · simp
      · intro contents h
        rw [List.map_singleton, eq_comm, List.map_eq_singleton_iff] at h
        obtain ⟨payload, rfl, hpayload⟩ := h
        rw [← hpayload, List.flatten_singleton]
  | append left right hleft hright =>
    obtain ⟨hmiddle, hfirst⟩ := hleft table position
    obtain ⟨hfinal, hsecond⟩ := hright (reduceEach table position left).1 (position + (left.map size).sum)
    rw [reduceAt_seq, reduceEach_append, size_sequence]
    simp only [hmiddle]
    exact ⟨hfinal, hfirst.append hsecond⟩

theorem bytes_of_reduceEach {nodes : List Code} (hnodes : ∀ node ∈ nodes, node.isDeferred = false) {table : SymbolTable}
    {position : Int} {pieces : List Reduced} (h : (reduceEach table position nodes).2 = .ok pieces) :
    ∃ contents : List Bytes, pieces.map Reduced.code = contents.map .bytes := by
  induction nodes generalizing table position pieces with
  | nil =>
    cases h
    exact ⟨[], rfl⟩
  | cons node rest ih =>
    rw [reduceEach] at h
    obtain ⟨r, later, hfirst, hrest, rfl⟩ := both_eq_ok_iff.mp h
    obtain ⟨hnode, hlater⟩ := List.forall_mem_cons.mp hnodes
    obtain ⟨payload, hpayload⟩ := (Residue.of_reduceAt hfirst).1.isBytes_iff.mpr hnode
    obtain ⟨contents, hcontents⟩ := ih hlater hrest
    exact ⟨payload :: contents, by rw [List.map_cons, List.map_cons, hpayload, hcontents]⟩

/-- A balanced tree has its nodes from left to right, their sizes together and their names by first appearance. Both
passes do with it what they do with the nodes one after another, and what comes out as bytes is the bytes of the nodes in
a row. Of at most `2 ^ k` nodes it is at most `k` levels higher than they are. -/
theorem sequence_refines (nodes : List Code) :
    (sequence nodes).items = nodes.flatMap items ∧
    (sequence nodes).size = (nodes.map size).sum ∧
    Appearances (nodes.flatMap mentions) (sequence nodes).symbolNames ∧
    (∀ (base : Int16) (table : SymbolTable), (sequence nodes).measure base table = measureEach base.toInt table nodes) ∧
    (∀ (table : SymbolTable) (base : Int16),
      ((sequence nodes).reduce table base).1 = (reduceEach table base.toInt nodes).1 ∧
      SameOutcome ((sequence nodes).reduce table base).2 (reduceEach table base.toInt nodes).2) ∧
    (∀ (table : SymbolTable) (base : Int16) (pieces : List Reduced), (∀ node ∈ nodes, node.isDeferred = false) →
      (reduceEach table base.toInt nodes).2 = .ok pieces →
        ∃ contents : List Bytes, pieces.map Reduced.code = contents.map .bytes ∧
          ((sequence nodes).reduce table base).2 = .ok ⟨.bytes contents.flatten, contents.flatten.length⟩) ∧
    ∀ k d, nodes.length ≤ 2 ^ k → (∀ node ∈ nodes, node.depth ≤ d) → (sequence nodes).depth ≤ k + d := by
  refine ⟨items_sequence nodes, size_sequence nodes, ?_, ?_, ?_, ?_, ?_⟩
  · rw [← mentions_sequence]
    exact appearances_eraseDups _
  · intro base table
    exact measureAt_sequence nodes base.toInt table
  · intro table base
    exact reduceAt_sequence nodes table base.toInt
  · intro table base pieces hnodes hpieces
    obtain ⟨contents, hcontents⟩ := bytes_of_reduceEach hnodes hpieces
    obtain ⟨r, hr, hjoins⟩ := (hpieces ▸ (reduceAt_sequence nodes table base.toInt).2).exists_joins
    obtain ⟨hresidue, hsize⟩ := Residue.of_reduceAt hr
    have hcode := hjoins.bytes contents hcontents
    have hlength : r.size = contents.flatten.length := by rw [hsize, ← hresidue.size, hcode, size]
    refine ⟨contents, hcontents, ?_⟩
    rw [reduce, hr, ← hcode, ← hlength]
  · intro k d hlength hdepth
    exact depth_sequence_le hlength hdepth

theorem sequence_refines_five :
    let nodes : List Code := [.ref "b", .mark "a", .seq (.ref "a") (.bytes [7]), .mark "b", .ref "a"]
    let table := SymbolTable.ofSymbols [⟨"b", .defined 5⟩]
    (sequence nodes).depth ≤ 3 + 1 ∧
    (∃ pieces, (reduceEach table (0 : Int16).toInt nodes).2 = .ok pieces) ∧
    ((sequence nodes).reduce table 0).2 = .ok ⟨.bytes [5, 0, 2, 0, 7, 2, 0], 7⟩ := by
  intro nodes table
  obtain ⟨-, -, -, -, -, hbytes, hdepth⟩ := sequence_refines nodes
  have hpieces : (reduceEach table (0 : Int16).toInt nodes).2 =
      .ok [⟨.bytes [5, 0], 2⟩, ⟨.bytes [], 0⟩, ⟨.bytes [2, 0, 7], 3⟩, ⟨.bytes [], 0⟩, ⟨.bytes [2, 0], 2⟩] := by
    decide +kernel
  refine ⟨hdepth 3 1 (by decide) (by decide), ⟨_, hpieces⟩, ?_⟩
  obtain ⟨contents, hcontents, hreduce⟩ := hbytes table 0 _ (by decide) hpieces
  obtain rfl : contents = [[5, 0], [], [2, 0, 7], [], [2, 0]] :=
    List.map_injective_iff.mpr (fun _ _ h => bytes.inj h) hcontents.symm
  exact hreduce

end StackLink.Code
