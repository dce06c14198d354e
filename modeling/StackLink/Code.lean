import StackLink.Bytes
import StackLink.Symbol

/-! # Code whose layout is not yet fixed -/
namespace StackLink

inductive Code where
  | bytes (payload : Bytes)
  /-- the offset of a label, to be filled in as two bytes -/
  | ref (name : SymbolName)
  /-- binds a name to the offset where the inner code starts, and takes no room itself -/
  | label (name : SymbolName) (inner : Code)
  | seq (first second : Code)
  /-- laid out like `seq`, but kept as it is until the last link -/
  | deferred (first second : Code)
deriving DecidableEq

namespace Code

def refSize : Nat := 2

def mark (name : SymbolName) : Code :=
  .label name (.bytes [])

/-- A balanced tree of the given nodes in their order. -/
def sequence : List Code → Code
  | [] => .bytes []
  | [code] => code
  | first :: second :: rest =>
    let nodes := first :: second :: rest
    let half := nodes.length / 2
    .seq (sequence (nodes.take half)) (sequence (nodes.drop half))
termination_by nodes => nodes.length
decreasing_by
  · simp only [List.length_take, List.length_cons]
    omega
  · simp only [List.length_drop, List.length_cons]
    omega

def size : Code → Nat
  | bytes payload => payload.length
  | ref _ => refSize
  | label _ inner => inner.size
  | seq first second | deferred first second => first.size + second.size

def content? : Code → Option Bytes
  | bytes payload => some payload
  | _ => none

def isDeferred : Code → Bool
  | bytes _ | ref _ => false
  | label _ inner => inner.isDeferred
  | seq first second => first.isDeferred || second.isDeferred
  | deferred _ _ => true

/-- The code with every deferred sequence turned into an ordinary one. -/
def release : Code → Code
  | bytes payload => .bytes payload
  | ref name => .ref name
  | label name inner => .label name inner.release
  | seq first second | deferred first second => .seq first.release second.release

/-- The names of labels and references from left to right, a label before what it holds. -/
def mentions : Code → List SymbolName
  | bytes _ => []
  | ref name => [name]
  | label name inner => name :: inner.mentions
  | seq first second | deferred first second => first.mentions ++ second.mentions

/-- The names that the code mentions, in the order in which each first appears. -/
def symbolNames (code : Code) : List SymbolName :=
  code.mentions.eraseDups

end Code

inductive CodeError where
  | unresolved (name : SymbolName)
  | outOfRange (name : SymbolName) (offset : Int)
deriving DecidableEq

def CodeError.message : CodeError → String
  | unresolved name => s!"undefined reference to {name}"
  | outOfRange name offset =>
    s!"label {name} would be at offset {offset}, which does not fit in 16 bits"

end StackLink
