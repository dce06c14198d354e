import Mathlib.Data.List.Basic
import StackLink.Expr
import StackLink.Proofs.Outcome

/-!
# Errors in expressions do not depend on values

Whether an expression has a value, and which error it ends in otherwise, can be told from the tree and from the number of
arguments. It has a value just if each node is well formed by itself. Arguments beyond those that it needs change nothing.
-/
namespace StackLink.Expr

def operands : Expr → List Expr
  | argument _ _ | constant _ => []
  | unary _ operand => [operand]
  | binary _ left right => [left, right]
  | call _ operands => operands

/-- The nodes of a tree: its root, and the operands of each node. -/
inductive Node (tree : Expr) : Expr → Prop
  | root : Node tree tree
  | operand {parent child : Expr} : Node tree parent → child ∈ parent.operands → Node tree child

/-- Whether a node is in order by itself, with this many arguments. -/
def WellFormed (available : Nat) : Expr → Prop
  | argument _ slot => slot < available
  | constant _ => True
  | unary op _ => op.tag ∈ [.plus, .minus]
  | binary op _ _ => op.tag ∈ [.plus, .minus, .star, .slash, .caret]
  | call function operands => ∃ f, Function.named? function.text = some f ∧ operands.length = f.arity

theorem Node.of_operand {tree child node : Expr} (hchild : child ∈ tree.operands) (h : Node child node) :
    Node tree node := by
  induction h with
  | root => exact .operand .root hchild
  | operand _ hmem ih => exact .operand ih hmem

theorem Node.cases_root {tree node : Expr} (h : Node tree node) :
    node = tree ∨ ∃ child ∈ tree.operands, Node child node := by
  induction h with
  | root => exact .inl rfl
  | @operand parent child _ hmem ih =>
    rcases ih with rfl | ⟨first, hfirst, hparent⟩
    · exact .inr ⟨child, hmem, .root⟩
    · exact .inr ⟨first, hfirst, .operand hparent hmem⟩

def AllWellFormed (available : Nat) (tree : Expr) : Prop :=
  ∀ node, Node tree node → node.WellFormed available

theorem allWellFormed_iff {available : Nat} {tree : Expr} :
    tree.AllWellFormed available ↔
      tree.WellFormed available ∧ ∀ child ∈ tree.operands, child.AllWellFormed available := by
  constructor
  · intro h
    exact ⟨h tree .root, fun child hchild node hnode => h node (hnode.of_operand hchild)⟩
  · intro ⟨hroot, hchildren⟩ node hnode
    rcases hnode.cases_root with rfl | ⟨child, hchild, hnode⟩
    · exact hroot
    · exact hchildren child hchild node hnode

/-- The error that evaluation with this many arguments ends in, whatever their values. -/
def fault? (available : Nat) : Expr → Option EvalError
  | argument name slot => if slot < available then none else some (.missingArgument name slot available)
  | constant _ => none
  | unary op operand =>
    (operand.fault? available).or (if (unaryOperator? op.tag).isSome then none else some (.unknownOperator op))
  | binary op left right =>
    (left.fault? available).or ((right.fault? available).or
      (if (binaryOperator? op.tag).isSome then none else some (.unknownOperator op)))
  | call function operands =>
    match Function.named? function.text, operands with
    | some (.unary _), [operand] => operand.fault? available
    | some (.binary _), [left, right] => (left.fault? available).or (right.fault? available)
    | some f, operands => some (.wrongArity function f.arity operands.length)
    | none, _ => some (.unknownFunction function)

/-- Whether a result is the error that is expected, or some value if none is. -/
def Accords (result : Except EvalError Binary64) : Option EvalError → Prop
  | some error => result = .error error
  | none => ∃ value, result = .ok value

theorem Accords.bind {result : Except EvalError Binary64} {fault rest : Option EvalError}
    {next : Binary64 → Except EvalError Binary64} (h : Accords result fault) (hnext : ∀ x, Accords (next x) rest) :
    Accords (result >>= next) (fault.or rest) := by
  cases fault with
  | none =>
    obtain ⟨x, rfl⟩ := h
    exact hnext x
  | some error =>
    have herror : result = .error error := h
    rw [herror]
    rfl

theorem Accords.map {result : Except EvalError Binary64} {fault : Option EvalError} (h : Accords result fault)
    (f : Binary64 → Binary64) : Accords (result >>= fun x => .ok (f x)) fault := by
  have hbind : Accords (result >>= fun x => .ok (f x)) (fault.or none) := h.bind fun x => ⟨f x, rfl⟩
  rwa [Option.or_none] at hbind

theorem accords_eval (args : List Binary64) (e : Expr) : Accords (e.eval args) (e.fault? args.length) := by
  fun_induction eval args e with
  | case1 name slot value hvalue =>
    have hlt : slot < args.length := (List.getElem?_eq_some_iff.mp hvalue).1
    rw [fault?, if_pos hlt]
    exact ⟨value, rfl⟩
  | case2 name slot hnone =>
    have hle : ¬slot < args.length := Nat.not_lt.mpr (List.getElem?_eq_none_iff.mp hnone)
    rw [fault?, if_neg hle]
    rfl
  | case3 value => exact ⟨value, rfl⟩
  | case4 op operand ih =>
    apply ih.bind
    intro x
    cases unaryOperator? op.tag with
    | none => rfl
    | some f => exact ⟨f x, rfl⟩
  | case5 op left right hleft hright =>
    apply hleft.bind
    intro x
    apply hright.bind
    intro y
    cases binaryOperator? op.tag with
    | none => rfl
    | some f => exact ⟨f x y, rfl⟩
  | case6 function f operand hf ih =>
    rw [fault?.eq_5 _ _ _ f hf]
    exact ih.map f
  | case7 function f left right hf hleft hright =>
    rw [fault?.eq_6 _ _ _ _ f hf]
    apply hleft.bind
    intro x
    exact hright.map (f x)
  | case8 function f operands hone htwo hf =>
    rw [fault?.eq_7 _ _ _ f hf hone htwo]
    rfl
  | case9 function operands hf =>
    rw [fault?.eq_8 _ _ _ hf]
    rfl

theorem exists_eval_iff {args : List Binary64} {e : Expr} :
    (∃ value, e.eval args = .ok value) ↔ e.fault? args.length = none := by
  have haccords := accords_eval args e
  cases hfault : e.fault? args.length with
  | none =>
    rw [hfault] at haccords
    exact iff_of_true haccords rfl
  | some error =>
    rw [hfault] at haccords
    have herror : e.eval args = .error error := haccords
    simp [herror]

theorem isSome_unaryOperator?_iff {tag : Tag} : (unaryOperator? tag).isSome ↔ tag ∈ [.plus, .minus] := by
  cases tag <;> decide

theorem isSome_binaryOperator?_iff {tag : Tag} :
    (binaryOperator? tag).isSome ↔ tag ∈ [.plus, .minus, .star, .slash, .caret] := by
  cases tag <;> decide

private theorem fault_of_lookup_eq_none_iff {α : Type} {lookup : Option α} {error : EvalError} :
    (if lookup.isSome then none else some error) = none ↔ lookup.isSome := by
  cases lookup <;> simp

private theorem length_ne_arity {f : Function} {operands : List Expr}
    (hone : ∀ apply operand, operands = [operand] → f = .unary apply → False)
    (htwo : ∀ apply left right, operands = [left, right] → f = .binary apply → False) :
    operands.length ≠ f.arity := by
  intro hlength
  cases f with
  | unary apply =>
    obtain ⟨operand, hoperand⟩ := List.length_eq_one_iff.mp hlength
    exact hone apply operand hoperand rfl
  | binary apply =>
    obtain ⟨left, right, hboth⟩ := List.length_eq_two.mp hlength
    exact htwo apply left right hboth rfl

theorem fault?_eq_none_iff {available : Nat} {e : Expr} :
    e.fault? available = none ↔ e.AllWellFormed available := by
  fun_induction fault? available e with
  | case1 name slot hslot =>
    rw [allWellFormed_iff]
    simp [WellFormed, operands, hslot]
  | case2 name slot hslot =>
    rw [allWellFormed_iff]
    simp [WellFormed, hslot]
  | case3 value =>
    rw [allWellFormed_iff]
    simp [WellFormed, operands]
  | case4 op operand ih =>
    rw [allWellFormed_iff, Option.or_eq_none_iff, ih, fault_of_lookup_eq_none_iff, isSome_unaryOperator?_iff]
    simp [WellFormed, operands, and_comm]
  | case5 op left right hleft hright =>
    rw [allWellFormed_iff, Option.or_eq_none_iff, Option.or_eq_none_iff, hleft, hright, fault_of_lookup_eq_none_iff,
      isSome_binaryOperator?_iff]
    simp [WellFormed, operands, and_comm, and_left_comm]
  | case6 function f operand hf ih =>
    rw [allWellFormed_iff, ih]
    simp [WellFormed, operands, hf, Function.arity]
  | case7 function f left right hf hleft hright =>
    rw [allWellFormed_iff, Option.or_eq_none_iff, hleft, hright]
    simp [WellFormed, operands, hf, Function.arity]
  | case8 function f operands hone htwo hf =>
    rw [allWellFormed_iff]
    simp [WellFormed, hf, length_ne_arity hone htwo]
  | case9 function operands hf =>
    rw [allWellFormed_iff]
    simp [WellFormed, hf]

def Lacks (result : Except EvalError Binary64) : Prop :=
  ∃ name slot available, result = .error (.missingArgument name slot available)

theorem Lacks.bind {result : Except EvalError Binary64} (h : Lacks result)
    (next : Binary64 → Except EvalError Binary64) : Lacks (result >>= next) := by
  obtain ⟨name, slot, available, rfl⟩ := h
  exact ⟨name, slot, available, rfl⟩

/-- What follows a result is looked at only if the result lacks no argument. -/
theorem bind_congr_of_not_lacks {result other : Except EvalError Binary64}
    {next otherNext : Binary64 → Except EvalError Binary64} (hresult : ¬Lacks result → other = result)
    (hnext : ∀ x, ¬Lacks (next x) → otherNext x = next x) (h : ¬Lacks (result >>= next)) :
    (other >>= otherNext) = result >>= next := by
  rw [hresult fun hlacks => h (hlacks.bind next)]
  cases result with
  | error error => rfl
  | ok x => exact hnext x h

theorem eval_append {args : List Binary64} {e : Expr} (h : ¬Lacks (e.eval args)) (extra : List Binary64) :
    e.eval (args ++ extra) = e.eval args := by
  fun_induction eval args e with
  | case1 name slot value hvalue =>
    have hlt : slot < args.length := (List.getElem?_eq_some_iff.mp hvalue).1
    rw [eval, List.getElem?_append_left hlt, hvalue]
  | case2 name slot hnone => exact absurd ⟨name, slot, args.length, rfl⟩ h
  | case3 value => rfl
  | case4 op operand ih =>
    rw [eval]
    exact bind_congr_of_not_lacks ih (fun _ _ => rfl) h
  | case5 op left right hleft hright =>
    rw [eval]
    exact bind_congr_of_not_lacks hleft (fun x => bind_congr_of_not_lacks hright fun _ _ => rfl) h
  | case6 function f operand hf ih =>
    rw [eval.eq_5 _ _ f _ hf]
    exact bind_congr_of_not_lacks ih (fun _ _ => rfl) h
  | case7 function f left right hf hleft hright =>
    rw [eval.eq_6 _ _ f _ _ hf]
    exact bind_congr_of_not_lacks hleft (fun x => bind_congr_of_not_lacks hright fun _ _ => rfl) h
  | case8 function f operands hone htwo hf => rw [eval.eq_7 _ _ _ f hf hone htwo]
  | case9 function operands hf => rw [eval.eq_8 _ _ _ hf]

/-- Evaluation with as many arguments ends in the same error or in a value both times. It ends in a value just if each node
is well formed, with the operator or the arity that it needs and its argument there. Unless an argument is missing, further
ones change nothing. -/
theorem eval_static (e : Expr) (a : List Binary64) :
    (∀ b : List Binary64, a.length = b.length →
      (∃ x y, e.eval a = .ok x ∧ e.eval b = .ok y) ∨ ∃ error, e.eval a = .error error ∧ e.eval b = .error error) ∧
    ((∃ x, e.eval a = .ok x) ↔ ∀ node, Node e node → node.WellFormed a.length) ∧
    ((∀ name slot available, e.eval a ≠ .error (.missingArgument name slot available)) →
      ∀ extra, e.eval (a ++ extra) = e.eval a) := by
  refine ⟨?_, ?_, ?_⟩
  · intro b hlength
    have ha := accords_eval a e
    have hb := accords_eval b e
    rw [← hlength] at hb
    cases hfault : e.fault? a.length with
    | none =>
      rw [hfault] at ha hb
      obtain ⟨x, hx⟩ := ha
      obtain ⟨y, hy⟩ := hb
      exact .inl ⟨x, y, hx, hy⟩
    | some error =>
      rw [hfault] at ha hb
      exact .inr ⟨error, ha, hb⟩
  · rw [exists_eval_iff, fault?_eq_none_iff]
    rfl
  · intro h extra
    apply eval_append
    intro ⟨name, slot, available, hlacks⟩
    exact h name slot available hlacks

/-- The arity of the left operand counts before the missing argument on the right and the operator. -/
theorem eval_static_order :
    let e := binary ⟨.ident, "?"⟩ (call ⟨.ident, "sin"⟩ []) (argument ⟨.ident, "x"⟩ 2)
    e.eval [.one] = .error (.wrongArity ⟨.ident, "sin"⟩ 1 0) ∧ e.eval [.nan] = .error (.wrongArity ⟨.ident, "sin"⟩ 1 0) ∧
    e.eval [.one, .one, .one] = .error (.wrongArity ⟨.ident, "sin"⟩ 1 0) := by
  intro e
  have hone : e.eval [.one] = .error (.wrongArity ⟨.ident, "sin"⟩ 1 0) := by rfl
  obtain ⟨hsame, -, hmore⟩ := eval_static e [.one]
  have hextra : e.eval [.one, .one, .one] = e.eval [.one] := hmore (by simp [hone]) [.one, .one]
  refine ⟨hone, ?_, hextra.trans hone⟩
  rcases hsame [.nan] rfl with ⟨x, y, hx, -⟩ | ⟨error, herror, hnan⟩
  · rw [hone] at hx
    cases hx
  · rw [hnan, ← herror, hone]

end StackLink.Expr
