import StyleValue.Numeric.Number

/-!
# Powers and angles

Powers, sines, cosines and the angle of a point, each as a series in fixed point: integers that
count units of a power of two, with some two hundred binary digits more than a double has. The
sum is then rounded to a double once. Small arguments get more digits, so that the relative error
is small for them too.
-/

set_option autoImplicit false

namespace StyleValue

namespace Series

def sum (next weigh : Nat → Int → Int) (term : Int) (index : Nat) : Nat → Int
  | 0 => 0
  | count + 1 => weigh index term + sum next weigh (next index term) (index + 1) count

def exponential (bits : Nat) (x : Int) : Int :=
  sum (fun k term => term * x / twoPow bits / (k + 1)) (fun _ term => term) (twoPow bits) 0 96

def twiceAreaTangent (bits : Nat) (numerator denominator : Nat) : Int :=
  sum (fun _ term => term * (numerator * numerator : Nat) / (denominator * denominator : Nat))
    (fun k term => term / (2 * k + 1)) ((2 * numerator * twoPow bits / denominator : Nat) : Int) 0 96

def logarithmOfTwo (bits : Nat) : Int := twiceAreaTangent bits 1 3

def logarithm (bits : Nat) (mantissa : Nat) (exponent : Int) : Int :=
  let unit := twoPow mantissa.log2
  twiceAreaTangent bits (mantissa - unit) (mantissa + unit) +
    (exponent + mantissa.log2) * logarithmOfTwo bits

def sine (bits : Nat) (x : Int) : Int :=
  sum (fun k term => -(term * x * x / twoPow (2 * bits) / ((2 * k + 2) * (2 * k + 3))))
    (fun _ term => term) x 0 64

def cosine (bits : Nat) (x : Int) : Int :=
  sum (fun k term => -(term * x * x / twoPow (2 * bits) / ((2 * k + 1) * (2 * k + 2))))
    (fun _ term => term) (twoPow bits) 0 64

def arcTangent (bits : Nat) (numerator denominator : Nat) : Int :=
  let square := numerator * numerator + denominator * denominator
  sum (fun k term => term * ((2 * k + 2) * numerator * numerator : Nat) /
      ((2 * k + 3) * square : Nat))
    (fun _ term => term) ((numerator * denominator * twoPow bits / square : Nat) : Int) 0 256

def pi (bits : Nat) : Int := 4 * (4 * arcTangent bits 1 5 - arcTangent bits 1 239)

end Series

namespace Double

def ofUnits (bits : Nat) (units : Int) : Rat := (units : Rat) / (twoPow bits : Rat)

def workingBits (x : Rat) : Nat := 200 + (-(leadingExponent x.num.natAbs x.den)).toNat

def power (base exponent : Double) : Computed Double :=
  match base with
  | .notANumber => .ok .notANumber
  | .infinite _ => .ok (.infinite false)
  | .finite _ mantissa scale _ =>
    if mantissa = 0 then .ok (.zero false)
    else
      let bits := 256
      let log := Series.logarithm bits mantissa scale * exponent.value.num / exponent.value.den
      let two := Series.logarithmOfTwo bits
      let whole := log / two
      let fraction := Series.exponential bits (log - whole * two)
      let result := nearest false (ofUnits bits fraction * (2 : Rat) ^ whole)
      if result.isFinite then .ok result else .error .overflow

def sine (x : Double) : Double :=
  match x with
  | .notANumber | .infinite _ => .notANumber
  | .finite .. =>
    if x.value = 0 then x
    else
      let bits := workingBits x.value
      ofRat (ofUnits bits (Series.sine bits (x.value * (twoPow bits : Rat)).floor))

def cosine (x : Double) : Double :=
  match x with
  | .notANumber | .infinite _ => .notANumber
  | .finite .. =>
    let bits := 200
    ofRat (ofUnits bits (Series.cosine bits (x.value * (twoPow bits : Rat)).floor))

def pi : Double := 3.141592653589793

def quadrantAngle (bits : Nat) (y x : Rat) : Int :=
  if y ≤ x then
    let slope := y / x
    Series.arcTangent bits slope.num.natAbs slope.den
  else
    let slope := x / y
    Series.pi bits / 2 - Series.arcTangent bits slope.num.natAbs slope.den

def angle (y x : Double) : Double :=
  let rounded (bits : Nat) (units : Int) : Double :=
    nearest y.isNegative (ofUnits bits (if x.isNegative then Series.pi bits - units else units))
  let diagonal (ordinate abscissa : Rat) : Double :=
    rounded 200 (quadrantAngle 200 ordinate abscissa)
  match y, x with
  | .notANumber, _ | _, .notANumber => .notANumber
  | .infinite _, .infinite _ => diagonal 1 1
  | .infinite _, .finite .. => diagonal 1 0
  | .finite .., .infinite _ => diagonal 0 1
  | .finite .., .finite .. =>
    let ordinate := y.abs.value
    let abscissa := x.abs.value
    if ordinate = 0 then diagonal 0 1
    else if abscissa = 0 then diagonal 1 0
    else
      let bits := workingBits (ordinate / abscissa)
      rounded bits (quadrantAngle bits ordinate abscissa)

def toRadians (x : Double) : Double := x * (pi / 180)

def toDegrees (x : Double) : Double := x * (180 / pi)

end Double

end StyleValue
