import StackLink.Binary64.Elementary

/-! # The functions that expressions can call -/
namespace StackLink

inductive Function where
  | unary (apply : Binary64 → Binary64)
  | binary (apply : Binary64 → Binary64 → Binary64)

namespace Function

def arity : Function → Nat
  | unary _ => 1
  | binary _ => 2

private def inverse (x : Binary64) : Binary64 :=
  Binary64.one.div x

/-- The cotangent and its inverse go through the tangent; the logarithm of `x` to the base `b` is a quotient. -/
def named? : String → Option Function
  | "sin" => some (unary Binary64.sin)
  | "cos" => some (unary Binary64.cos)
  | "tan" => some (unary Binary64.tan)
  | "cot" | "ctan" => some (unary fun x => inverse x.tan)
  | "asin" => some (unary Binary64.asin)
  | "acos" => some (unary Binary64.acos)
  | "atan" => some (unary Binary64.atan)
  | "acot" | "actan" => some (unary fun x => (inverse x).atan)
  | "sqrt" => some (unary Binary64.sqrt)
  | "exp" => some (unary Binary64.exp)
  | "ln" => some (unary Binary64.ln)
  | "abs" => some (unary Binary64.abs)
  | "log" => some (binary fun b x => x.ln.div b.ln)
  | "pow" => some (binary Binary64.pow)
  | _ => none

end Function
end StackLink
