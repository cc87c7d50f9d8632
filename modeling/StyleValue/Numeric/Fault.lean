/-!
# Faults of numbers

Numbers are integers of any size and doubles. An operation on them fails in four ways only: an
integer has no double near it, a quotient has no divisor, a number that is none is asked for its
integer part, or an integer has too many digits to be written. `Computed` is a value that may have
failed so.
-/

set_option autoImplicit false

namespace StyleValue

inductive Fault
  /-- A double was needed and the value is beyond all of them. -/
  | overflow
  | divisionByZero
  /-- An integer was needed of something that is not a number. -/
  | notANumber
  /-- A text was needed of an integer of too many digits. -/
  | tooLong
deriving DecidableEq, Repr

abbrev Computed (α : Type) : Type := Except Fault α

instance {α : Type} : Coe α (Computed α) := ⟨.ok⟩

instance instDecidableEqExcept {ε α : Type} [DecidableEq ε] [DecidableEq α] :
    DecidableEq (Except ε α)
  | .ok a, .ok b => decidable_of_iff (a = b) (by rw [Except.ok.injEq])
  | .error d, .error e => decidable_of_iff (d = e) (by rw [Except.error.injEq])
  | .ok _, .error _ | .error _, .ok _ => isFalse nofun

end StyleValue
