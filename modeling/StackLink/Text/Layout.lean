/-! # Columns and lines of text -/
namespace StackLink.Text

/-- Fills a text up to a width with blanks on the right; widths count code points. -/
def padRight (width : Nat) (text : String) : String :=
  text ++ String.ofList (List.replicate (width - text.length) ' ')

def padLeft (width : Nat) (text : String) : String :=
  String.ofList (List.replicate (width - text.length) ' ') ++ text

def splitNewlines (text : List Char) : List Char × List (List Char) :=
  text.foldr
    (fun c (current, later) => if c = '\n' then ([], current :: later) else (c :: current, later))
    ([], [])

def dropReturn (line : List Char) : List Char :=
  if line.getLast? = some '\r' then line.dropLast else line

/-- What the last part of a text counts for: it has no newline, and it is no line if it is empty. -/
def lastLine (part : List Char) : List (List Char) :=
  if part = [] then [] else [part]

def linesOf : List Char → List (List Char) → List (List Char)
  | part, [] => lastLine part
  | part, next :: later => dropReturn part :: linesOf next later

/-- The lines of a text. Each ends at a newline, before which one carriage return is dropped; a last
line without a newline counts unless it is empty. -/
def lines (text : List Char) : List (List Char) :=
  let (first, later) := splitNewlines text
  linesOf first later

end StackLink.Text
