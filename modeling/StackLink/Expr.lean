import StackLink.Token
import StackLink.Binary64.Decimal
import StackLink.Expr.Function

/-! # Arithmetic expressions and their values -/
namespace StackLink

/-- An expression is a function of a list of arguments; a name stands for the argument in its slot. -/
inductive Expr where
  | argument (name : Token) (slot : Nat)
  | constant (value : Binary64)
  | unary (op : Token) (operand : Expr)
  | binary (op : Token) (left right : Expr)
  | call (function : Token) (operands : List Expr)

inductive EvalError where
  | badConstant (token : Token)
  | unknownOperator (token : Token)
  | unknownFunction (token : Token)
  | wrongArity (function : Token) (expected got : Nat)
  | missingArgument (name : Token) (slot available : Nat)
deriving DecidableEq

namespace EvalError

def token : EvalError → Token
  | badConstant t | unknownOperator t | unknownFunction t | wrongArity t _ _ | missingArgument t _ _ => t

def message : EvalError → String
  | badConstant t => s!"'{t.text}' is not a real number"
  | unknownOperator t => s!"'{t.text}' is not an operator"
  | unknownFunction t => s!"unknown function '{t.text}'"
  | wrongArity f expected got =>
    s!"function '{f.text}' takes {expected} arguments but was given {got}"
  | missingArgument name slot available =>
    s!"'{name.text}' refers to argument {slot} but only {available} arguments were supplied"

end EvalError

namespace Expr

def literal (token : Token) : Except EvalError Expr :=
  match Binary64.ofText? token.text with
  | some value => .ok (.constant value)
  | none => .error (.badConstant token)

def unaryOperator? : Tag → Option (Binary64 → Binary64)
  | .plus => some id
  | .minus => some Binary64.neg
  | _ => none

def binaryOperator? : Tag → Option (Binary64 → Binary64 → Binary64)
  | .plus => some Binary64.add
  | .minus => some Binary64.sub
  | .star => some Binary64.mul
  | .slash => some Binary64.div
  | .caret => some Binary64.pow
  | _ => none

/-- The value of an expression. Operands come before their operator is looked up; a function's name and
the number of its operands come before the operands. -/
def eval (args : List Binary64) : Expr → Except EvalError Binary64
  | argument name slot =>
    match args[slot]? with
    | some value => .ok value
    | none => .error (.missingArgument name slot args.length)
  | constant value => .ok value
  | unary op operand => do
    let x ← operand.eval args
    match unaryOperator? op.tag with
    | some f => .ok (f x)
    | none => .error (.unknownOperator op)
  | binary op left right => do
    let x ← left.eval args
    let y ← right.eval args
    match binaryOperator? op.tag with
    | some f => .ok (f x y)
    | none => .error (.unknownOperator op)
  | call function operands =>
    match Function.named? function.text, operands with
    | some (.unary f), [operand] => do
      let x ← operand.eval args
      .ok (f x)
    | some (.binary f), [left, right] => do
      let x ← left.eval args
      let y ← right.eval args
      .ok (f x y)
    | some f, operands => .error (.wrongArity function f.arity operands.length)
    | none, _ => .error (.unknownFunction function)

end Expr
end StackLink
