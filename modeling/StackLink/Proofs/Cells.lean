import StackLink.Proofs.Filling

/-!
# Content byte by byte

Neither pass depends on how content is divided among nodes. The cells of code are its items with all content cut
into single bytes, and what a link makes of code can be told from its cells.
-/
namespace StackLink

namespace Item

def cells : Item → List Item
  | bytes payload => payload.map fun b => .bytes [b]
  | ref name => [.ref name]
  | label name => [.label name]

def mention? : Item → Option SymbolName
  | bytes _ => none
  | ref name | label name => some name

theorem span_cells (items : List Item) : span (items.flatMap cells) = span items := by
  have hbytes (payload : Bytes) : span (payload.map fun b => .bytes [b]) = payload.length := by
    induction payload with
    | nil => rfl
    | cons b rest ih => simp [ih, size, Nat.add_comm]
  induction items with
  | nil => rfl
  | cons item rest ih => cases item <;> simp [cells, ih, hbytes, size]

theorem labelsFrom_cells (position : Int) (items : List Item) :
    labelsFrom position (items.flatMap cells) = labelsFrom position items := by
  have hbytes (position : Int) (payload : Bytes) (rest : List Item) :
      labelsFrom position ((payload.map fun b => .bytes [b]) ++ rest) = labelsFrom (position + payload.length) rest := by
    induction payload generalizing position with
    | nil => simp
    | cons b payload ih =>
      simp only [List.map_cons, List.cons_append, labelsFrom, ih, List.length_cons, List.length_nil]
      congr 1
      omega
  induction items generalizing position with
  | nil => rfl
  | cons item rest ih => cases item <;> simp [cells, labelsFrom, hbytes, ih]

theorem filterMap_cells {α : Type} {select : Item → Option α} (h : ∀ payload, select (.bytes payload) = none)
    (items : List Item) : (items.flatMap cells).filterMap select = items.filterMap select := by
  induction items with
  | nil => rfl
  | cons item rest ih =>
    rw [List.flatMap_cons, List.filterMap_append, ih]
    cases item with
    | bytes payload =>
      have hnone : (cells (.bytes payload)).filterMap select = [] := by
        simp [cells, List.filterMap_map, h]
      rw [hnone, List.nil_append, List.filterMap_cons_none (h payload)]
    | ref name | label name => rw [cells, ← List.filterMap_append, List.singleton_append]

theorem flatMap_content_cells (table : SymbolTable) (items : List Item) :
    (items.flatMap cells).flatMap (content table) = items.flatMap (content table) := by
  rw [List.flatMap_assoc]
  congr 1
  funext item
  cases item <;> simp [cells, content, List.flatMap_map]

end Item

theorem Filling.run_cells (state : Filling) (items : List Item) :
    state.run (items.flatMap Item.cells) = state.run items := by
  have hbytes (state : Filling) (payload : Bytes) :
      state.run (payload.map fun b => .bytes [b]) = state.step (.bytes payload) := by
    induction payload generalizing state with
    | nil => simp [Filling.step]
    | cons b payload ih =>
      rw [List.map_cons, Filling.run_cons, ih]
      simp only [Filling.step, List.length_cons, List.length_nil, List.append_assoc, List.singleton_append,
        Filling.mk.injEq, and_true]
      omega
  induction items generalizing state with
  | nil => rfl
  | cons item rest ih =>
    rw [List.flatMap_cons, Filling.run_append, ih, Filling.run_cons]
    cases item with
    | bytes payload => rw [Item.cells, hbytes]
    | ref name | label name => rfl

namespace Code

def cells (code : Code) : List Item :=
  code.items.flatMap Item.cells

@[simp] theorem cells_bytes (payload : Bytes) : (bytes payload).cells = payload.map fun b => .bytes [b] := by
  by_cases h : payload = [] <;> simp [cells, items, h, Item.cells]

@[simp] theorem cells_seq (first second : Code) : (seq first second).cells = first.cells ++ second.cells :=
  List.flatMap_append

@[simp] theorem cells_deferred (first second : Code) : (deferred first second).cells = first.cells ++ second.cells :=
  List.flatMap_append

@[simp] theorem cells_label (name : SymbolName) (inner : Code) :
    (label name inner).cells = .label name :: inner.cells := rfl

/-- Joining two pieces of code moves at most the border between their contents. -/
@[simp] theorem cells_join (first second : Code) : (join first second).cells = first.cells ++ second.cells := by
  unfold join
  split <;> simp

theorem mentions_eq (code : Code) : code.mentions = code.items.filterMap Item.mention? := by
  induction code with
  | bytes payload => by_cases h : payload = [] <;> simp [mentions, items, h, Item.mention?]
  | ref name => rfl
  | label name inner ih => simp [mentions, items, ih, Item.mention?]
  | seq first second ihf ihs | deferred first second ihf ihs => simp [mentions, items, ihf, ihs]

section Same

variable {code other : Code} (h : code.cells = other.cells)
include h

theorem size_of_cells : code.size = other.size := by
  rw [← span_items, ← span_items, ← Item.span_cells, ← Item.span_cells other.items]
  exact congrArg Item.span h

theorem labels_of_cells : code.labels = other.labels := by
  rw [labels, labels, ← Item.labelsFrom_cells, ← Item.labelsFrom_cells 0 other.items]
  exact congrArg (Item.labelsFrom 0) h

theorem refs_of_cells : code.refs = other.refs := by
  rw [refs, refs, ← Item.filterMap_cells fun _ => rfl, ← Item.filterMap_cells (fun _ => rfl) other.items]
  exact congrArg (List.filterMap Item.refName?) h

theorem symbolNames_of_cells : code.symbolNames = other.symbolNames := by
  rw [symbolNames, symbolNames, mentions_eq, mentions_eq, ← Item.filterMap_cells fun _ => rfl,
    ← Item.filterMap_cells (fun _ => rfl) other.items]
  exact congrArg (fun cells => (List.filterMap Item.mention? cells).eraseDups) h

theorem content_of_cells (table : SymbolTable) :
    code.items.flatMap (Item.content table) = other.items.flatMap (Item.content table) := by
  rw [← Item.flatMap_content_cells, ← Item.flatMap_content_cells table other.items]
  exact congrArg (List.flatMap (Item.content table)) h

end Same

end Code
end StackLink
