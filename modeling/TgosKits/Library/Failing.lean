import Mathlib.Tactic.Common

/-! # Stateful computations that can fail -/

namespace TgosKits

/-- A failure keeps the state it happens in. -/
def Failing (State Error Value : Type) : Type := State → Except Error Value × State

namespace Failing

variable {State Error Value Result : Type}

instance : Monad (Failing State Error) where
  pure value := fun state => (.ok value, state)
  bind computation next := fun state =>
    match computation state with
    | (.ok value, state) => next value state
    | (.error error, state) => (.error error, state)

def lift (outcome : Except Error Value) : Failing State Error Value := fun state => (outcome, state)

def fail (error : Error) : Failing State Error Value := lift (.error error)

def update (change : State → State) : Failing State Error Unit :=
  fun state => (.ok (), change state)

variable {computation : Failing State Error Value} {next : Value → Failing State Error Result}
  {state state' : State} {value : Value} {result : Result} {error : Error}

@[simp]
theorem lift_apply {outcome : Except Error Value} :
    (lift outcome : Failing State Error Value) state = (outcome, state) :=
  rfl

theorem bind_of_ok (ran : computation state = (.ok value, state')) :
    (computation >>= next) state = next value state' := by
  change (match computation state with
    | (.ok value, state) => next value state
    | (.error error, state) => (.error error, state)) = _
  rw [ran]

private theorem bind_of_error (ran : computation state = (.error error, state')) :
    (computation >>= next) state = (.error error, state') := by
  change (match computation state with
    | (.ok value, state) => next value state
    | (.error error, state) => (.error error, state)) = _
  rw [ran]

/-- A sequence succeeds when both parts do. -/
theorem bind_eq_ok_iff : (computation >>= next) state = (.ok result, state') ↔
      ∃ value middle, computation state = (.ok value, middle) ∧
        next value middle = (.ok result, state') := by
  rcases ran : computation state with ⟨error | value, middle⟩
  · rw [bind_of_error ran]
    simp
  · rw [bind_of_ok ran]
    simp

theorem lift_bind_eq_ok_iff {outcome : Except Error Value} :
    (lift outcome >>= next) state = (.ok result, state') ↔
      ∃ value, outcome = .ok value ∧ next value state = (.ok result, state') := by
  simp [bind_eq_ok_iff]

end Failing

end TgosKits
