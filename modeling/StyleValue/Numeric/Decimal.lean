import StyleValue.Numeric.Number

/-!
# Decimals of 28 digits

A numeral is read in decimal before it becomes an integer or a double: an exact coefficient and a
power of ten, rounded to 28 significant digits with ties to the even digit. Powers of ten end at
999999; what lies beyond is out of range.
-/

set_option autoImplicit false

namespace StyleValue

def digitCount (n : Nat) : Nat := (Nat.toDigits 10 n).length

def ofDigits (digits : List Char) : Nat :=
  digits.foldl (fun n c => 10 * n + (c.toNat - '0'.toNat)) 0

structure Decimal where
  negative : Bool
  coefficient : Nat
  exponent : Int
deriving DecidableEq

namespace Decimal

def precision : Nat := 28

def greatestExponent : Int := 999999

def leastExponent : Int := -1000026

def magnitude (d : Decimal) : Rat := (d.coefficient : Rat) * (10 : Rat) ^ d.exponent

def leadingExponent (d : Decimal) : Int := d.exponent + digitCount d.coefficient - 1

def rounded (d : Decimal) : Decimal :=
  let surplus := digitCount d.coefficient - precision
  if surplus = 0 then d
  else ⟨d.negative, divideHalfEven d.coefficient (tenPow surplus), d.exponent + surplus⟩

/-- A decimal times a power of ten, rounded; nothing if it is out of range. Zero stays zero
whatever the power, and a power below the least exponent makes zero of anything. -/
def scale (d : Decimal) (power : Int) : Option Decimal :=
  if d.coefficient = 0 then some ⟨d.negative, 0, 0⟩
  else if greatestExponent < power then none
  else if power < leastExponent then some ⟨d.negative, 0, 0⟩
  else
    let scaled := rounded ⟨d.negative, d.coefficient, d.exponent + power⟩
    if greatestExponent < scaled.leadingExponent then none else some scaled

def toDouble (d : Decimal) : Double :=
  if d.coefficient = 0 then .zero d.negative
  else if 400 < d.leadingExponent then .infinite d.negative
  else if d.leadingExponent < -400 then .zero d.negative
  else .nearest d.negative d.magnitude

def truncate (d : Decimal) : Int :=
  let magnitude :=
    if 0 ≤ d.exponent then d.coefficient * tenPow d.exponent.toNat
    else d.coefficient / tenPow (-d.exponent).toNat
  if d.negative then -(magnitude : Int) else magnitude

def isInteger (d : Decimal) : Bool :=
  0 ≤ d.exponent || d.coefficient % tenPow (-d.exponent).toNat == 0

end Decimal

def decimalMagnitude (numerator denominator : Nat) : Int :=
  if denominator ≤ numerator then digitCount (numerator / denominator)
  else 1 - digitCount ((denominator + numerator - 1) / numerator - 1)

namespace Double

def roundTo (decimals : Nat) (x : Double) : Double :=
  match x with
  | .notANumber | .infinite _ => x
  | .finite negative .. =>
    let unit := tenPow decimals
    nearest negative
      ((divideHalfEven (x.value.num.natAbs * unit) x.value.den : Rat) / (unit : Rat))

def decimalOfLength? (x : Double) (length : Nat) : Option Decimal :=
  let numerator := x.value.num.natAbs
  let denominator := x.value.den
  let exponent := decimalMagnitude numerator denominator - length
  let scaledNumerator := numerator * tenPow (-exponent).toNat
  let scaledDenominator := denominator * tenPow exponent.toNat
  let below : Decimal := ⟨x.isNegative, scaledNumerator / scaledDenominator, exponent⟩
  let above : Decimal := ⟨x.isNegative, scaledNumerator / scaledDenominator + 1, exponent⟩
  let nearer : Decimal := ⟨x.isNegative, divideHalfEven scaledNumerator scaledDenominator, exponent⟩
  let readsBack (d : Decimal) : Bool := d.toDouble == x
  if readsBack nearer then some nearer
  else if readsBack below then some below
  else if readsBack above then some above
  else none

def shortest (x : Double) : Decimal :=
  if x.value = 0 then ⟨x.isNegative, 0, 0⟩
  else
    match (List.range 17).findSome? fun n => x.decimalOfLength? (n + 1) with
    | some d =>
      let length := digitCount d.coefficient - 1
      if d.coefficient = tenPow length then ⟨d.negative, 1, d.exponent + length⟩ else d
    | none => ⟨x.isNegative, 0, 0⟩

end Double

end StyleValue
