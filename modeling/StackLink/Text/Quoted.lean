import StackLink.Text.Concealed

/-! # Quoted text -/
namespace StackLink.Text

/-- How a character is written between quotes: short escapes for tab, return, newline, NUL, backslash and
the quote, the number of the code point for what cannot be shown on its own. -/
private def quotedChar (c : Char) : List Char :=
  if c = '\t' then ['\\', 't']
  else if c = '\r' then ['\\', 'r']
  else if c = '\n' then ['\\', 'n']
  else if c = '\x00' then ['\\', '0']
  else if c = '\\' ∨ c = '"' then ['\\', c]
  else if isConcealed c then "\\u\x7b".toList ++ Nat.toDigits 16 c.toNat ++ ['\x7d']
  else [c]

def quoted (text : String) : String :=
  String.ofList ('"' :: text.toList.flatMap quotedChar ++ ['"'])

end StackLink.Text
