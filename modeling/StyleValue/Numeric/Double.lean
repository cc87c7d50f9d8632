import StyleValue.Numeric.Fault

/-!
# Doubles by exact value

A double is a sign, an integer mantissa and a power of two in a single canonical form, or an
infinity, or not a number. Each operation takes the exact rational result and rounds it once, to
the nearest double with ties to the even mantissa, so a statement about an operation is a
statement about `value` and `nearest`.
-/

set_option autoImplicit false

namespace StyleValue

def twoPow (n : Nat) : Nat := Nat.pow 2 n

def tenPow (n : Nat) : Nat := Nat.pow 10 n

def divideHalfEven (numerator denominator : Nat) : Nat :=
  let whole := numerator / denominator
  let twice := 2 * (numerator % denominator)
  if twice < denominator ∨ (twice = denominator ∧ whole % 2 = 0) then whole else whole + 1

theorem divideHalfEven_bounds (n d : Nat) :
    n / d ≤ divideHalfEven n d ∧ divideHalfEven n d ≤ n / d + 1 := by
  unfold divideHalfEven
  dsimp only
  split <;> omega

def leadingExponent (numerator denominator : Nat) : Int :=
  let guess : Int := (numerator.log2 : Int) - (denominator.log2 : Int)
  if numerator * twoPow (-guess).toNat < denominator * twoPow guess.toNat then guess - 1 else guess

def Canonical (mantissa : Nat) (exponent : Int) : Prop :=
  mantissa < twoPow 53 ∧ -1074 ≤ exponent ∧ exponent ≤ 971 ∧
    (twoPow 52 ≤ mantissa ∨ exponent = -1074)

instance (mantissa : Nat) (exponent : Int) : Decidable (Canonical mantissa exponent) := by
  unfold Canonical
  infer_instance

inductive Double
  | notANumber
  | infinite (negative : Bool)
  | finite (negative : Bool) (mantissa : Nat) (exponent : Int)
      (canonical : Canonical mantissa exponent)
deriving DecidableEq

namespace Double

def zero (negative : Bool) : Double := .finite negative 0 (-1074) (by decide)

def ofParts (negative : Bool) (mantissa : Nat) (exponent : Int) : Double :=
  if h : Canonical mantissa exponent then .finite negative mantissa exponent h
  else .infinite negative

/-- The double of a sign that is nearest to a magnitude, ties going to the even mantissa. The
sign of the second argument does not count, so that a magnitude of zero keeps the sign given. -/
def nearest (negative : Bool) (magnitude : Rat) : Double :=
  let numerator := magnitude.num.natAbs
  let denominator := magnitude.den
  if numerator = 0 then zero negative
  else
    let exponent := max (leadingExponent numerator denominator - 52) (-1074)
    let mantissa :=
      divideHalfEven (numerator * twoPow (-exponent).toNat) (denominator * twoPow exponent.toNat)
    if mantissa = twoPow 53 then ofParts negative (twoPow 52) (exponent + 1)
    else ofParts negative mantissa exponent

def ofRat (q : Rat) : Double := nearest (decide (q < 0)) q

instance : OfScientific Double := ⟨fun mantissa negated exponent =>
  ofRat (Rat.ofScientific mantissa negated exponent)⟩

instance (n : Nat) : OfNat Double n := ⟨ofRat n⟩

def value : Double → Rat
  | .finite negative mantissa exponent _ =>
    (if negative then -(mantissa : Rat) else (mantissa : Rat)) * (2 : Rat) ^ exponent
  | _ => 0

def isNotANumber : Double → Bool
  | .notANumber => true
  | _ => false

def isFinite : Double → Bool
  | .finite .. => true
  | _ => false

def isNegative : Double → Bool
  | .notANumber => false
  | .infinite negative => negative
  | .finite negative .. => negative

def withSign (negative : Bool) : Double → Double
  | .notANumber => .notANumber
  | .infinite _ => .infinite negative
  | .finite _ mantissa exponent h => .finite negative mantissa exponent h

@[simp] theorem value_zero (negative : Bool) : (zero negative).value = 0 := by
  have h : ((0 : Nat) : Rat) = 0 := rfl
  cases negative <;> simp only [zero, value, h, Rat.neg_zero, Rat.zero_mul, ite_self]

@[simp] theorem isNegative_zero (negative : Bool) : (zero negative).isNegative = negative := rfl

@[simp] theorem isFinite_zero (negative : Bool) : (zero negative).isFinite = true := rfl

theorem nearest_zero (negative : Bool) : nearest negative 0 = zero negative := by
  simp [nearest]

/-- Rounding a magnitude never gives something that is not a number. -/
theorem isNotANumber_nearest (negative : Bool) (q : Rat) :
    (nearest negative q).isNotANumber = false := by
  unfold nearest ofParts
  dsimp only
  repeat' split
  all_goals rfl

protected def neg (x : Double) : Double := x.withSign !x.isNegative

protected def abs (x : Double) : Double := x.withSign false

protected def add (x y : Double) : Double :=
  match x, y with
  | .notANumber, _ | _, .notANumber => .notANumber
  | .infinite s, .infinite t => if s = t then .infinite s else .notANumber
  | .infinite s, .finite .. => .infinite s
  | .finite .., .infinite t => .infinite t
  | .finite s .., .finite t .. =>
    let sum := x.value + y.value
    if sum = 0 then zero (s && t) else ofRat sum

protected def mul (x y : Double) : Double :=
  let negative := x.isNegative != y.isNegative
  match x, y with
  | .notANumber, _ | _, .notANumber => .notANumber
  | .infinite _, .infinite _ => .infinite negative
  | .infinite _, .finite .. => if y.value = 0 then .notANumber else .infinite negative
  | .finite .., .infinite _ => if x.value = 0 then .notANumber else .infinite negative
  | .finite .., .finite .. => nearest negative (x.value * y.value)

protected def div (x y : Double) : Double :=
  let negative := x.isNegative != y.isNegative
  match x, y with
  | .notANumber, _ | _, .notANumber => .notANumber
  | .infinite _, .infinite _ => .notANumber
  | .infinite _, .finite .. => .infinite negative
  | .finite .., .infinite _ => zero negative
  | .finite .., .finite .. =>
    if y.value = 0 then (if x.value = 0 then .notANumber else .infinite negative)
    else nearest negative (x.value / y.value)

instance : Neg Double := ⟨Double.neg⟩
instance : Add Double := ⟨Double.add⟩
instance : Sub Double := ⟨fun x y => x + -y⟩
instance : Mul Double := ⟨Double.mul⟩
instance : Div Double := ⟨Double.div⟩

def integerPart (q : Rat) : Int := if q < 0 then -(-q).floor else q.floor

def remainder (x y : Double) : Double :=
  match x, y with
  | .notANumber, _ | _, .notANumber | .infinite _, _ => .notANumber
  | .finite .., .infinite _ => x
  | .finite s .., .finite .. =>
    if y.value = 0 then .notANumber
    else nearest s (x.value - (integerPart (x.value / y.value) : Rat) * y.value)

/-- The remainder of a division toward the floor, which has the sign of the divisor. A remainder
of the other sign is moved by the divisor, rounding once more, and so can reach the divisor. -/
protected def mod (x y : Double) : Double :=
  let r := x.remainder y
  match r with
  | .notANumber => .notANumber
  | .infinite _ => r
  | .finite .. =>
    if r.value = 0 then zero y.isNegative
    else if r.isNegative = y.isNegative then r
    else r + y

instance : Mod Double := ⟨Double.mod⟩

def compareRat? (x : Double) (q : Rat) : Option Ordering :=
  match x with
  | .notANumber => none
  | .infinite negative => some (if negative then .lt else .gt)
  | .finite .. => some (compareOfLessAndEq x.value q)

def compare? (x y : Double) : Option Ordering :=
  match x, y with
  | _, .finite .. => x.compareRat? y.value
  | .notANumber, _ | _, .notANumber => none
  | .infinite s, .infinite t => some (if s = t then .eq else if s then .lt else .gt)
  | .finite .., .infinite t => some (if t then .gt else .lt)

def floor : Double → Computed Int
  | .notANumber => .error .notANumber
  | .infinite _ => .error .overflow
  | x@(.finite ..) => .ok x.value.floor

def truncate : Double → Computed Int
  | .notANumber => .error .notANumber
  | .infinite _ => .error .overflow
  | x@(.finite ..) => .ok (integerPart x.value)

end Double

end StyleValue
