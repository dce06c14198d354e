import StackLink.Code
import StackLink.Proofs.SymbolTable

/-!
# Code from left to right

However code is nested, both passes go through its nodes from left to right. The list of these nodes,
with the positions of the labels among them, is what every statement about code is reduced to.
-/
namespace StackLink

inductive Item where
  | bytes (payload : Bytes)
  | ref (name : SymbolName)
  | label (name : SymbolName)
deriving DecidableEq

structure Label where
  name : SymbolName
  position : Int
deriving DecidableEq

namespace Label

def fits (label : Label) : Bool :=
  decide (Offset.Fits label.position)

def symbol (label : Label) : Symbol :=
  ⟨label.name, .defined (Int16.ofInt label.position)⟩

def shift (base : Int) (label : Label) : Label :=
  ⟨label.name, base + label.position⟩

@[simp] theorem fits_iff {label : Label} : label.fits = true ↔ Offset.Fits label.position :=
  decide_eq_true_iff

@[simp] theorem name_symbol (label : Label) : label.symbol.name = label.name := rfl

@[simp] theorem name_shift (base : Int) (label : Label) : (label.shift base).name = label.name := rfl

end Label

namespace Item

def size : Item → Nat
  | bytes payload => payload.length
  | ref _ => Code.refSize
  | label _ => 0

def span : List Item → Nat
  | [] => 0
  | item :: rest => item.size + span rest

def labelsFrom (position : Int) : List Item → List Label
  | [] => []
  | label name :: rest => ⟨name, position⟩ :: labelsFrom position rest
  | bytes payload :: rest => labelsFrom (position + payload.length) rest
  | ref _ :: rest => labelsFrom (position + Code.refSize) rest

def refName? : Item → Option SymbolName
  | ref name => some name
  | bytes _ | label _ => none

def labelName? : Item → Option SymbolName
  | label name => some name
  | bytes _ | ref _ => none

def content (table : SymbolTable) : Item → Bytes
  | bytes payload => payload
  | ref name => (table.offset? name).elim [] Bytes.ofOffset
  | label _ => []

@[simp] theorem span_nil : span [] = 0 := rfl

@[simp] theorem span_cons (item : Item) (items : List Item) : span (item :: items) = item.size + span items := rfl

@[simp] theorem span_append (first second : List Item) : span (first ++ second) = span first + span second := by
  induction first with
  | nil => rw [List.nil_append, span_nil, Nat.zero_add]
  | cons item rest ih => rw [List.cons_append, span_cons, span_cons, ih, Nat.add_assoc]

theorem labelsFrom_append (position : Int) (first second : List Item) :
    labelsFrom position (first ++ second) =
      labelsFrom position first ++ labelsFrom (position + span first) second := by
  induction first generalizing position with
  | nil => simp [labelsFrom]
  | cons item rest ih =>
    cases item <;> simp [labelsFrom, ih, size, Int.add_assoc]

theorem labelsFrom_add (base position : Int) (items : List Item) :
    labelsFrom (base + position) items = (labelsFrom position items).map (Label.shift base) := by
  induction items generalizing position with
  | nil => rfl
  | cons item rest ih =>
    cases item with
    | bytes payload => rw [labelsFrom, labelsFrom, Int.add_assoc, ih]
    | ref name => rw [labelsFrom, labelsFrom, Int.add_assoc, ih]
    | label name => rw [labelsFrom, labelsFrom, ih, List.map_cons, Label.shift]

theorem labelsFrom_eq (base : Int) (items : List Item) :
    labelsFrom base items = (labelsFrom 0 items).map (Label.shift base) := by
  rw [← labelsFrom_add, Int.add_zero]

theorem map_name_labelsFrom (position : Int) (items : List Item) :
    (labelsFrom position items).map Label.name = items.filterMap labelName? := by
  induction items generalizing position with
  | nil => rfl
  | cons item rest ih =>
    cases item with
    | bytes payload => exact ih _
    | ref name => exact ih _
    | label name => exact congrArg (name :: ·) (ih position)

theorem mem_map_name_labelsFrom_iff {position : Int} {items : List Item} {name : SymbolName} :
    name ∈ (labelsFrom position items).map Label.name ↔ .label name ∈ items := by
  rw [map_name_labelsFrom, List.mem_filterMap]
  constructor
  · rintro ⟨item, hitem, hname⟩
    cases item with
    | label other =>
      cases hname
      exact hitem
    | bytes payload => cases hname
    | ref other => cases hname
  · intro h
    exact ⟨.label name, h, rfl⟩

theorem position_of_mem_labelsFrom {position : Int} {items : List Item} {found : Label}
    (h : found ∈ labelsFrom position items) :
    position ≤ found.position ∧ found.position ≤ position + span items := by
  induction items generalizing position with
  | nil => cases h
  | cons item rest ih =>
    cases item with
    | bytes payload =>
      have hrest := ih h
      simp only [span_cons, size]
      omega
    | ref name =>
      have hrest := ih h
      simp only [span_cons, size]
      omega
    | label name =>
      simp only [span_cons, size]
      rcases List.mem_cons.mp h with rfl | h
      · simp only
        omega
      · have hrest := ih h
        omega

theorem pairwise_labelsFrom (position : Int) (items : List Item) :
    (labelsFrom position items).Pairwise fun earlier later => earlier.position ≤ later.position := by
  induction items generalizing position with
  | nil => exact .nil
  | cons item rest ih =>
    cases item with
    | bytes payload => exact ih _
    | ref name => exact ih _
    | label name =>
      refine List.Pairwise.cons ?_ (ih _)
      intro later hlater
      exact (position_of_mem_labelsFrom hlater).1

end Item

namespace Code

/-- The nodes of code from left to right, a label before what it holds. Empty content is left out. -/
def items : Code → List Item
  | bytes payload => if payload = [] then [] else [.bytes payload]
  | ref name => [.ref name]
  | label name inner => .label name :: inner.items
  | seq first second | deferred first second => first.items ++ second.items

def labels (code : Code) : List Label :=
  Item.labelsFrom 0 code.items

def refs (code : Code) : List SymbolName :=
  code.items.filterMap Item.refName?

@[simp] theorem span_items (code : Code) : Item.span code.items = code.size := by
  induction code with
  | bytes payload =>
    by_cases h : payload = []
    · simp [items, size, h]
    · simp [items, size, h, Item.size]
  | ref name => rfl
  | label name inner ih => simp [items, size, ih, Item.size]
  | seq first second ihf ihs => simp [items, size, ihf, ihs]
  | deferred first second ihf ihs => simp [items, size, ihf, ihs]

theorem labels_seq (first second : Code) :
    (seq first second).labels = first.labels ++ second.labels.map (Label.shift first.size) := by
  rw [labels, items, Item.labelsFrom_append, span_items, Int.zero_add, Item.labelsFrom_eq first.size]
  rfl

theorem refs_seq (first second : Code) : (seq first second).refs = first.refs ++ second.refs :=
  List.filterMap_append

theorem mem_refs_iff {code : Code} {name : SymbolName} : name ∈ code.refs ↔ .ref name ∈ code.items := by
  simp only [refs, List.mem_filterMap]
  constructor
  · rintro ⟨item, hitem, hname⟩
    cases item with
    | ref other =>
      cases hname
      exact hitem
    | bytes payload => cases hname
    | label other => cases hname
  · intro h
    exact ⟨.ref name, h, rfl⟩

theorem items_release (code : Code) : code.release.items = code.items := by
  induction code with
  | bytes payload => rfl
  | ref name => rfl
  | label name inner ih => rw [release, items, items, ih]
  | seq first second ihf ihs | deferred first second ihf ihs => rw [release, items, items, ihf, ihs]

theorem size_release (code : Code) : code.release.size = code.size := by
  rw [← span_items, ← span_items, items_release]

/-- What holds of no nodes and of a single one, and of lists in a row if it holds of each, holds of a balanced tree. -/
theorem sequence_induction {motive : List Code → Code → Prop} (nil : motive [] (.bytes []))
    (singleton : ∀ node, motive [node] node)
    (append : ∀ left right, motive left (sequence left) → motive right (sequence right) →
      motive (left ++ right) (.seq (sequence left) (sequence right)))
    (nodes : List Code) : motive nodes (sequence nodes) := by
  induction nodes using sequence.induct with
  | case1 =>
    rw [sequence]
    exact nil
  | case2 node =>
    rw [sequence]
    exact singleton node
  | case3 first second rest nodes half ihl ihr =>
    have h := append _ _ ihl ihr
    rw [List.take_append_drop] at h
    rw [sequence]
    exact h

theorem items_sequence (nodes : List Code) : (sequence nodes).items = nodes.flatMap items := by
  induction nodes using sequence_induction with
  | nil => simp [items]
  | singleton node => rw [List.flatMap_singleton]
  | append left right hleft hright => rw [items, hleft, hright, List.flatMap_append]

end Code
end StackLink
