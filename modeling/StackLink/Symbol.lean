/-! # Symbols -/
namespace StackLink

abbrev SymbolName := String

abbrev ModuleName := String

/-- A name in the notation of a record with one field. -/
def SymbolName.describe (name : SymbolName) : String :=
  "SymbolName \x7b canonical: \"" ++ name ++ "\" \x7d"

inductive Binding where
  /-- It is mentioned, and some other module should define it. -/
  | undefined
  /-- It stands at an offset, from the start of a module or of an image. -/
  | defined (offset : Int16)
deriving DecidableEq

def Binding.offset? : Binding → Option Int16
  | undefined => none
  | defined offset => some offset

def Binding.ofOffset? : Option Int16 → Binding
  | none => undefined
  | some offset => defined offset

structure Symbol where
  name : SymbolName
  binding : Binding
deriving DecidableEq

def Symbol.offset? (symbol : Symbol) : Option Int16 :=
  symbol.binding.offset?

end StackLink
