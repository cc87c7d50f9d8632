import StyleValue.Numeric.Double

/-!
# Numbers

A number is an integer of any size or a double, and stays what it is as long as an operation
allows: sums, differences, products and remainders of integers are integers, a quotient is always
a double, and a mixed operation first takes the double nearest to the integer. Comparisons are by
exact value whatever the kinds.
-/

set_option autoImplicit false

namespace StyleValue

inductive Number
  | integer (n : Int)
  | double (x : Double)
deriving DecidableEq

namespace Number

instance (n : Nat) : OfNat Number n := ⟨.integer n⟩

instance : OfScientific Number := ⟨fun mantissa negated exponent =>
  .double (OfScientific.ofScientific mantissa negated exponent)⟩

instance : Coe Double Number := ⟨.double⟩

instance : Inhabited Number := ⟨0⟩

def toDouble : Number → Computed Double
  | .double x => .ok x
  | .integer n =>
    let x := Double.ofRat n
    if x.isFinite then .ok x else .error .overflow

@[simp] theorem toDouble_double (x : Double) : (Number.double x).toDouble = .ok x := rfl

def combine (onIntegers : Int → Int → Int) (onDoubles : Double → Double → Double) :
    Number → Number → Computed Number
  | .integer m, .integer n => .ok (.integer (onIntegers m n))
  | x, y => do return .double (onDoubles (← x.toDouble) (← y.toDouble))

protected def add : Number → Number → Computed Number := combine (· + ·) (· + ·)

protected def sub : Number → Number → Computed Number := combine (· - ·) (· - ·)

protected def mul : Number → Number → Computed Number := combine (· * ·) (· * ·)

def isZero : Number → Bool
  | .integer n => n == 0
  | .double x => x.isFinite && x.value == 0

/-- The quotient, a double in any case. That of two integers is rounded once, from the exact
quotient, and overflows only if that quotient is beyond all doubles; that of zero and a negative
integer is the negative zero. -/
protected def div (x y : Number) : Computed Number :=
  if y.isZero then .error .divisionByZero
  else
    match x, y with
    | .integer m, .integer n =>
      let quotient := Double.nearest (decide (m < 0) != decide (n < 0)) ((m : Rat) / (n : Rat))
      if quotient.isFinite then .ok (.double quotient) else .error .overflow
    | _, _ => do return .double ((← x.toDouble) / (← y.toDouble))

protected def mod (x y : Number) : Computed Number :=
  if y.isZero then .error .divisionByZero else combine Int.fmod (· % ·) x y

protected def neg : Number → Number
  | .integer n => .integer (-n)
  | .double x => .double (-x)

instance : Neg Number := ⟨Number.neg⟩

protected def abs : Number → Number
  | .integer n => .integer n.natAbs
  | .double x => .double x.abs

def compare? : Number → Number → Option Ordering
  | .integer m, .integer n => some (compareOfLessAndEq m n)
  | .integer m, .double y => (y.compareRat? m).map Ordering.swap
  | .double x, .integer n => x.compareRat? n
  | .double x, .double y => x.compare? y

def lt (x y : Number) : Bool := x.compare? y == some .lt

def le (x y : Number) : Bool := x.compare? y == some .lt || x.compare? y == some .eq

def equal (x y : Number) : Bool := x.compare? y == some .eq

def floor : Number → Computed Int
  | .integer n => .ok n
  | .double x => x.floor

def truncate : Number → Computed Int
  | .integer n => .ok n
  | .double x => x.truncate

def isNotANumber (x : Number) : Computed Bool := do return (← x.toDouble).isNotANumber

def isFinite (x : Number) : Computed Bool := do return (← x.toDouble).isFinite

def roundHalfUp (x : Number) : Computed Int := do (← x.add 0.5).floor

def clamp (x low high : Number) : Number :=
  if low.le x && x.le high then x else if x.lt low then low else high

def larger (x y : Number) : Number := if x.lt y then y else x

end Number

end StyleValue
