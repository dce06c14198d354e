/-! # Lexical units: mnemonics, operands and operators -/
namespace StackLink

/-- The kind of a token. The `R` mnemonics take their operands in reverse order. -/
inductive Tag where
  | halt | ret | pop
  | sum | sumR | sub | subR | mul | mulR | div | divR | log | logR | pow | powR
  | sin | cos | tan | ctan | asin | acos | atan | actan
  | fld | push | call
  | register | number | real | ident
  | plus | minus | star | slash | caret
deriving DecidableEq

namespace Tag

def name : Tag → String
  | halt => "End" | ret => "Ret" | pop => "Pop"
  | sum => "Sum" | sumR => "SumR" | sub => "Sub" | subR => "SubR"
  | mul => "Mul" | mulR => "MulR" | div => "Div" | divR => "DivR"
  | log => "Log" | logR => "LogR" | pow => "Pow" | powR => "PowR"
  | sin => "Sin" | cos => "Cos" | tan => "Tan" | ctan => "Ctan"
  | asin => "Asin" | acos => "Acos" | atan => "Atan" | actan => "Actan"
  | fld => "Fld" | push => "Push" | call => "Call"
  | register => "Register" | number => "Number" | real => "Real" | ident => "Ident"
  | plus => "Plus" | minus => "Minus" | star => "Star" | slash => "Slash" | caret => "Caret"

def all : List Tag :=
  [halt, ret, pop, sum, sumR, sub, subR, mul, mulR, div, divR, log, logR, pow, powR,
    sin, cos, tan, ctan, asin, acos, atan, actan, fld, push, call,
    register, number, real, ident, plus, minus, star, slash, caret]

def ofName? (name : String) : Option Tag :=
  all.find? fun tag => tag.name == name

def isMnemonic : Tag → Bool
  | register | number | real | ident | plus | minus | star | slash | caret => false
  | _ => true

end Tag

structure Token where
  tag : Tag
  text : String
deriving DecidableEq

end StackLink
