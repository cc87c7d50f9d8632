import StyleValue.Numeric.Decimal

/-!
# Written numbers

`Number.text` writes a number so that reading it gives it back: an integer with its digits, unless
these are more than 4300, and a double with the fewest digits that identify it. `Number.scientific`
writes twelve digits, for values whose last bits carry no meaning. `Number.ofText?` reads what
`Number.text` writes.
-/

set_option autoImplicit false

namespace StyleValue

def digitsOf (n : Nat) : List Char := Nat.toDigits 10 n

def minusIf (negative : Bool) : List Char := if negative then ['-'] else []

def exponentText (exponent : Int) : List Char :=
  let digits := digitsOf exponent.natAbs
  'e' :: (if exponent < 0 then '-' else '+') :: (if digits.length < 2 then '0' :: digits else digits)

def Decimal.text (d : Decimal) : List Char :=
  let digits := digitsOf d.coefficient
  let point : Int := if d.coefficient = 0 then 1 else digits.length + d.exponent
  let unsigned :=
    if -4 < point ∧ point ≤ 16 then
      if point ≤ 0 then '0' :: '.' :: (List.replicate (-point).toNat '0' ++ digits)
      else if digits.length ≤ point.toNat then
        digits ++ List.replicate (point.toNat - digits.length) '0' ++ ['.', '0']
      else digits.take point.toNat ++ '.' :: digits.drop point.toNat
    else
      match digits with
      | [] => []
      | first :: [] => first :: exponentText (point - 1)
      | first :: others => first :: '.' :: others ++ exponentText (point - 1)
  minusIf d.negative ++ unsigned

def Double.text : Double → String
  | .notANumber => "nan"
  | .infinite negative => String.ofList (minusIf negative ++ ['i', 'n', 'f'])
  | x@(.finite ..) => String.ofList x.shortest.text

def digitLimit : Nat := 4300

def Number.text : Number → Computed String
  | .integer n =>
    if digitCount n.natAbs ≤ digitLimit then
      .ok (String.ofList (minusIf (decide (n < 0)) ++ digitsOf n.natAbs))
    else .error .tooLong
  | .double x => .ok x.text

def Double.scientific : Double → String
  | .notANumber => "nan"
  | .infinite negative => String.ofList (minusIf negative ++ ['i', 'n', 'f'])
  | x@(.finite negative ..) =>
    let numerator := x.value.num.natAbs
    let denominator := x.value.den
    let magnitude : Int := if numerator = 0 then 12 else decimalMagnitude numerator denominator
    let unit := magnitude - 12
    let rounded := divideHalfEven (numerator * tenPow (-unit).toNat) (denominator * tenPow unit.toNat)
    let (digits, exponent) :=
      if numerator = 0 then (List.replicate 12 '0', 0)
      else if rounded = tenPow 12 then (digitsOf (tenPow 11), magnitude)
      else (digitsOf rounded, magnitude - 1)
    String.ofList (minusIf negative ++ digits.take 1 ++ '.' :: digits.drop 1 ++ exponentText exponent)

def Number.scientific (x : Number) : Computed String := do return (← x.toDouble).scientific

def spanDigits (text : List Char) : List Char × List Char := text.span Char.isDigit

def readExponent? : List Char → Option Int
  | [] => some 0
  | mark :: text =>
    if mark = 'e' ∨ mark = 'E' then
      let (negative, digits) : Bool × List Char := match text with
        | '-' :: digits => (true, digits)
        | '+' :: digits => (false, digits)
        | digits => (false, digits)
      if digits.isEmpty || !digits.all Char.isDigit then none
      else some (if negative then -ofDigits digits else ofDigits digits)
    else none

def readUnsigned? (negative : Bool) (text : List Char) : Option Number :=
  let (whole, rest) := spanDigits text
  if rest.isEmpty && !whole.isEmpty then
    some (.integer (if negative then -ofDigits whole else ofDigits whole))
  else
    let (fraction, rest) : List Char × List Char := match rest with
      | '.' :: rest => spanDigits rest
      | rest => ([], rest)
    if whole.isEmpty && fraction.isEmpty then none
    else (readExponent? rest).map fun exponent =>
      .double (Decimal.toDouble ⟨negative, ofDigits (whole ++ fraction), exponent - fraction.length⟩)

def Number.ofText? (text : String) : Option Number :=
  match text with
  | "nan" => some (.double .notANumber)
  | "inf" => some (.double (.infinite false))
  | "-inf" => some (.double (.infinite true))
  | _ =>
    match text.toList with
    | '-' :: unsigned => readUnsigned? true unsigned
    | unsigned => readUnsigned? false unsigned

end StyleValue
