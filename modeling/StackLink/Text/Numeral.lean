import StackLink.Offset

/-! # Integers read from text -/
namespace StackLink.Numeral

def isDigit (c : Char) : Bool :=
  '0' ≤ c && c ≤ '9'

def pushDigit (n : Nat) (c : Char) : Nat :=
  10 * n + (c.toNat - '0'.toNat)

def value (digits : List Char) : Nat :=
  digits.foldl pushDigit 0

/-- The number that a run of digits denotes, except that digits no longer count once `limit` is reached. -/
def valueBelow (limit : Nat) (digits : List Char) : Nat :=
  digits.foldl (fun n c => if n < limit then pushDigit n c else n) 0

private theorem le_foldl_pushDigit (digits : List Char) (n : Nat) : n ≤ digits.foldl pushDigit n := by
  induction digits generalizing n with
  | nil => exact Nat.le_refl n
  | cons c rest ih =>
    have hstep : n ≤ pushDigit n c := by
      unfold pushDigit
      omega
    exact Nat.le_trans hstep (ih _)

private theorem foldl_pushDigit_stopped (limit : Nat) (digits : List Char) {n : Nat} (h : limit ≤ n) :
    digits.foldl (fun n c => if n < limit then pushDigit n c else n) n = n := by
  induction digits with
  | nil => rfl
  | cons c rest ih => rw [List.foldl_cons, if_neg (by omega), ih]

private theorem foldl_pushDigit_below (limit : Nat) (digits : List Char) (n : Nat) :
    digits.foldl (fun n c => if n < limit then pushDigit n c else n) n = digits.foldl pushDigit n ∨
      (limit ≤ digits.foldl (fun n c => if n < limit then pushDigit n c else n) n ∧
        limit ≤ digits.foldl pushDigit n) := by
  induction digits generalizing n with
  | nil => exact .inl rfl
  | cons c rest ih =>
    by_cases h : n < limit
    · rw [List.foldl_cons, List.foldl_cons, if_pos h]
      exact ih _
    · have hn : limit ≤ n := by omega
      refine .inr ⟨?_, Nat.le_trans hn (le_foldl_pushDigit (c :: rest) n)⟩
      rw [foldl_pushDigit_stopped limit (c :: rest) hn]
      exact hn

theorem valueBelow_eq_value {limit : Nat} {digits : List Char} (h : value digits < limit) :
    valueBelow limit digits = value digits := by
  rcases foldl_pushDigit_below limit digits 0 with heq | ⟨_, hle⟩
  · exact heq
  · exact absurd h (Nat.not_lt.mpr hle)

theorem valueBelow_lt_iff {limit : Nat} {digits : List Char} :
    valueBelow limit digits < limit ↔ value digits < limit := by
  rcases foldl_pushDigit_below limit digits 0 with heq | ⟨hbelow, hle⟩
  · rw [valueBelow, heq, value]
  · exact iff_of_false (Nat.not_lt.mpr hbelow) (Nat.not_lt.mpr hle)

def spanDigits (text : List Char) : List Char × List Char :=
  text.span isDigit

/-- One or more digits and nothing else. Once the number is out of the range of 16 bits its further digits do
not count. -/
def natural? (text : List Char) : Option Nat :=
  if text ≠ [] ∧ text.all isDigit then some (valueBelow 0x10000 text) else none

def unsigned? : List Char → Option Nat
  | '+' :: digits => natural? digits
  | digits => natural? digits

def signed? : List Char → Option Int
  | '-' :: digits => (natural? digits).map fun n => -(n : Int)
  | digits => (unsigned? digits).map Int.ofNat

def byte? (text : String) : Option UInt8 :=
  match unsigned? text.toList with
  | some n => if n < 256 then some (UInt8.ofNat n) else none
  | none => none

def offset? (text : String) : Option Int16 :=
  (signed? text.toList).bind Offset.ofInt?

end StackLink.Numeral
