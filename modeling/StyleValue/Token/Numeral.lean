import StyleValue.Numeric.Decimal
import StyleValue.Text.CodePoint

/-!
# Numerals

A numeral is a sign, digits, a fraction and an exponent, of which all but the digits of one of the
first two parts may be missing. It is read in decimal: one without fraction and exponent denotes an
integer, any other a double.
-/

set_option autoImplicit false

namespace StyleValue

structure NumeralExponent where
  negative : Bool
  digits : List Char
deriving DecidableEq

structure Numeral where
  negative : Bool
  whole : List Char
  fraction : Option (List Char)
  exponent : Option NumeralExponent
deriving DecidableEq

namespace Numeral

def isInteger (n : Numeral) : Bool := n.fraction.isNone && n.exponent.isNone

def mantissa (n : Numeral) : Decimal :=
  let fraction := n.fraction.getD []
  ⟨n.negative, ofDigits (n.whole ++ fraction), -fraction.length⟩

def power (n : Numeral) : Int :=
  match n.exponent with
  | none => 0
  | some e => if e.negative then -ofDigits e.digits else ofDigits e.digits

def significant (n : Numeral) : List Char :=
  (n.whole ++ n.fraction.getD []).dropWhile (· == '0')

def isTooLong (n : Numeral) : Bool :=
  n.isInteger && Decimal.greatestExponent + 1 < n.significant.length

/-- The number that a numeral denotes, after rounding to 28 digits. Out of range, an integer has no
value and any other number is infinite. An integer that is too long is not computed. -/
def value (n : Numeral) : Computed Number :=
  if n.isTooLong then .error .overflow
  else
    match n.mantissa.scale n.power with
    | some d => .ok (if n.isInteger then .integer d.truncate else .double d.toDouble)
    | none => if n.isInteger then .error .overflow else .ok (.double (.infinite n.negative))

def startsUnsigned : List Char → Bool
  | '.' :: c :: _ => isDigit c
  | c :: _ => isDigit c
  | [] => false

def starts : List Char → Bool
  | '+' :: text => startsUnsigned text
  | '-' :: text => startsUnsigned text
  | text => startsUnsigned text

def scanSign : List Char → Bool × List Char
  | '-' :: text => (true, text)
  | '+' :: text => (false, text)
  | text => (false, text)

def scanFraction : List Char → Option (List Char) × List Char
  | '.' :: text =>
    if (text.head?.any isDigit) then (some (text.takeWhile isDigit), text.dropWhile isDigit)
    else (none, '.' :: text)
  | text => (none, text)

def scanExponent (text : List Char) : Option NumeralExponent × List Char :=
  match text with
  | [] => (none, [])
  | mark :: signed =>
    let (negative, digits) := scanSign signed
    if (mark = 'e' ∨ mark = 'E') ∧ digits.head?.any isDigit then
      (some ⟨negative, digits.takeWhile isDigit⟩, digits.dropWhile isDigit)
    else (none, text)

def scan (text : List Char) : Numeral × List Char :=
  let (negative, unsigned) := scanSign text
  let (fraction, afterFraction) := scanFraction (unsigned.dropWhile isDigit)
  let (exponent, rest) := scanExponent afterFraction
  (⟨negative, unsigned.takeWhile isDigit, fraction, exponent⟩, rest)

end Numeral

end StyleValue
