import Mathlib.Logic.Basic

/-! # Steps that may fail, in sequence -/
namespace StackLink

variable {ε α β : Type}

theorem ok_bind (value : α) (next : α → Except ε β) : (.ok value >>= next) = next value :=
  rfl

theorem error_bind (error : ε) (next : α → Except ε β) : (.error error >>= next) = .error error :=
  rfl

theorem bind_eq_ok_iff {first : Except ε α} {next : α → Except ε β} {result : β} :
    (first >>= next) = .ok result ↔ ∃ value, first = .ok value ∧ next value = .ok result := by
  cases first with
  | error error => simp [error_bind]
  | ok value => simp [ok_bind]

theorem map_eq_ok_iff {result : Except ε α} {view : α → β} {seen : β} :
    result.map view = .ok seen ↔ ∃ value, result = .ok value ∧ view value = seen := by
  cases result with
  | error error => exact iff_of_false (fun h => by cases h) fun ⟨_, h, _⟩ => by cases h
  | ok value =>
    have hmap : (Except.ok value : Except ε α).map view = .ok (view value) := rfl
    simp [hmap]

theorem map_eq_error_iff {result : Except ε α} {view : α → β} {error : ε} :
    result.map view = .error error ↔ result = .error error := by
  cases result with
  | error found =>
    have hmap : (Except.error found : Except ε α).map view = .error found := rfl
    simp [hmap]
  | ok value => exact iff_of_false (fun h => by cases h) fun h => by cases h

theorem ok_mapError {ε' : Type} (value : α) (cause : ε → ε') : (Except.ok value).mapError cause = .ok value :=
  rfl

theorem error_mapError {ε' : Type} (error : ε) (cause : ε → ε') :
    (Except.error error : Except ε α).mapError cause = .error (cause error) :=
  rfl

theorem mapError_eq_ok_iff {ε' : Type} {result : Except ε α} {cause : ε → ε'} {value : α} :
    result.mapError cause = .ok value ↔ result = .ok value := by
  cases result with
  | error error => simp [error_mapError]
  | ok found => simp [ok_mapError]

/-- What can be said of a result before it is known to be there. -/
theorem exists_of_toOption_map {result : Except ε α} {view : α → β} {seen : β}
    (h : result.toOption.map view = some seen) : ∃ value, result = .ok value ∧ view value = seen := by
  cases result with
  | error error => cases h
  | ok value => exact ⟨value, rfl, Option.some.inj h⟩

end StackLink
