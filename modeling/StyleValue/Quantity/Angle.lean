import StyleValue.Failure
import StyleValue.Numeric.Arithmetic
import StyleValue.Numeric.Elementary

/-!
# Angles

Angles in degrees, and the sides and corners that stand for some of them. A zero without a unit is
an angle too.
-/

set_option autoImplicit false

namespace StyleValue

def degreesPerUnit? : String → Option Number
  | "deg" => some 1
  | "grad" => some 0.9
  | "rad" => some (.double (180 / Double.pi))
  | "turn" => some 360
  | _ => none

namespace ComponentValue

def angle? : ComponentValue → Option (Number × Number)
  | .token ⟨.dimension n unit, _⟩ => (degreesPerUnit? (lowercase unit)).map fun factor => (n, factor)
  | _ => none

def isAngle (v : ComponentValue) : Bool := v.angle?.isSome

def isZeroNumber : ComponentValue → Bool
  | .token ⟨.number n, _⟩ => n.isZero
  | _ => false

def isAngleOrZero (v : ComponentValue) : Bool := v.isAngle || v.isZeroNumber

def degrees (v : ComponentValue) : Parsed Number :=
  match v.angle? with
  | some (n, factor) => (n.mul factor : Computed Number)
  | none => if v.isZeroNumber then .ok 0 else reject (.notAnAngle v)

end ComponentValue

/-- The direction of a clause that names a side or a corner, in degrees clockwise from the top.
With `to` it names where a gradient goes, and without where it comes from. A corner is taken to be
that of a square. -/
def sideDegrees? : String → Option Number
  | "to top" | "bottom" => some 0
  | "to top right" | "to right top" | "left bottom" | "bottom left" => some 45
  | "to right" | "left" => some 90
  | "to bottom right" | "to right bottom" | "left top" | "top left" => some 135
  | "to bottom" | "top" => some 180
  | "to bottom left" | "to left bottom" | "right top" | "top right" => some 225
  | "to left" | "right" => some 270
  | "to top left" | "to left top" | "right bottom" | "bottom right" => some 315
  | _ => none

def keywordClause (values : List ComponentValue) : String :=
  String.intercalate " " (values.filterMap ComponentValue.keyword?)

def namedSide (values : List ComponentValue) : Parsed Number :=
  let clause := keywordClause values
  match sideDegrees? clause with
  | some degrees => .ok degrees
  | none => reject (.unrecognizedSide clause)

end StyleValue
