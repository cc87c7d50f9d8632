import StyleValue.Numeric.Number

/-!
# Arithmetic that formulas are written in

A formula of colorimetry is one text for two readings: over numbers, where each operation rounds
and may fail, and over rationals, where it is exact. `Arithmetic` is what such a formula needs, and
the operators on `Computed` values let it be written as it is printed.
-/

set_option autoImplicit false

namespace StyleValue

class Arithmetic (α : Type) where
  ofNat : Nat → α
  add : α → α → Computed α
  sub : α → α → Computed α
  mul : α → α → Computed α
  div : α → α → Computed α
  mod : α → α → Computed α
  lt : α → α → Bool
  le : α → α → Bool
  isZero : α → Bool

instance : Arithmetic Number where
  ofNat n := .integer n
  add := Number.add
  sub := Number.sub
  mul := Number.mul
  div := Number.div
  mod := Number.mod
  lt := Number.lt
  le := Number.le
  isZero := Number.isZero

instance : Arithmetic Rat where
  ofNat n := n
  add x y := .ok (x + y)
  sub x y := .ok (x - y)
  mul x y := .ok (x * y)
  div x y := if y = 0 then .error .divisionByZero else .ok (x / y)
  mod x y := if y = 0 then .error .divisionByZero else .ok (x - y * ((x / y).floor : Rat))
  lt x y := decide (x < y)
  le x y := decide (x ≤ y)
  isZero x := decide (x = 0)

namespace Computed

def lift {α : Type} (operation : α → α → Computed α) (x y : Computed α) : Computed α := do
  operation (← x) (← y)

variable {α : Type} [Arithmetic α]

instance : Add (Computed α) := ⟨lift Arithmetic.add⟩
instance : Sub (Computed α) := ⟨lift Arithmetic.sub⟩
instance : Mul (Computed α) := ⟨lift Arithmetic.mul⟩
instance : Div (Computed α) := ⟨lift Arithmetic.div⟩
instance : Mod (Computed α) := ⟨lift Arithmetic.mod⟩
instance (n : Nat) : OfNat (Computed α) n := ⟨.ok (Arithmetic.ofNat n)⟩
instance : OfScientific (Computed Number) := ⟨fun mantissa negated exponent =>
  .ok (OfScientific.ofScientific mantissa negated exponent)⟩

@[simp] theorem ok_add_ok (x y : α) :
    (Except.ok x : Computed α) + Except.ok y = Arithmetic.add x y := rfl

@[simp] theorem ok_sub_ok (x y : α) :
    (Except.ok x : Computed α) - Except.ok y = Arithmetic.sub x y := rfl

@[simp] theorem ok_mul_ok (x y : α) :
    (Except.ok x : Computed α) * Except.ok y = Arithmetic.mul x y := rfl

@[simp] theorem ok_div_ok (x y : α) :
    (Except.ok x : Computed α) / Except.ok y = Arithmetic.div x y := rfl

@[simp] theorem ok_mod_ok (x y : α) :
    (Except.ok x : Computed α) % Except.ok y = Arithmetic.mod x y := rfl

def lt (x y : Computed α) : Computed Bool := do return Arithmetic.lt (← x) (← y)

def le (x y : Computed α) : Computed Bool := do return Arithmetic.le (← x) (← y)

end Computed

end StyleValue
