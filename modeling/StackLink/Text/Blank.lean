/-! # White space -/
namespace StackLink.Text

/-- The code points with the White_Space property. -/
def isBlank (c : Char) : Bool :=
  let n := c.toNat
  (9 ≤ n && n ≤ 13) || n == 0x20 || n == 0x85 || n == 0xA0 || n == 0x1680 ||
    (0x2000 ≤ n && n ≤ 0x200A) || n == 0x2028 || n == 0x2029 || n == 0x202F || n == 0x205F ||
    n == 0x3000

def trim (text : String) : String :=
  String.ofList ((text.toList.dropWhile isBlank).reverse.dropWhile isBlank).reverse

def consWord (word : List Char) (words : List (List Char)) : List (List Char) :=
  if word = [] then words else word :: words

def words (text : List Char) : List (List Char) :=
  let (first, later) := text.foldr
    (fun c (current, later) => if isBlank c then ([], consWord current later) else (c :: current, later))
    ([], [])
  consWord first later

end StackLink.Text
