/-! # Offsets of 16 bits -/
namespace StackLink.Offset

def ofInt? (n : Int) : Option Int16 :=
  if -32768 ≤ n ∧ n ≤ 32767 then some (Int16.ofInt n) else none

theorem toInt_of_ofInt? {n : Int} {offset : Int16} (h : ofInt? n = some offset) : offset.toInt = n := by
  unfold ofInt? at h
  split at h
  · rename_i hn
    cases h
    exact Int16.toInt_ofInt_of_le (by omega) (by omega)
  · cases h

@[simp] theorem ofInt?_toInt (offset : Int16) : ofInt? offset.toInt = some offset := by
  have hlow := offset.le_toInt
  have hhigh := offset.toInt_lt
  unfold ofInt?
  rw [if_pos (by omega), Int16.ofInt_toInt]

end StackLink.Offset
