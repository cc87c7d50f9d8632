import StyleValue.Gradient.Linear
import StyleValue.Gradient.Radial

/-!
# Gradients between points

The first dialect of all gives points and stops in any order: the direction of a linear gradient is
that from one point to another, and a radial one is given by two circles, of which the outer counts.
-/

set_option autoImplicit false

namespace StyleValue

namespace PointGradient

/-- A fraction as a percentage: an integer if it is one, in decimal arithmetic of 28 digits. The
decimal is read from the text of the fraction. -/
def percentageOf (n : Number) : Computed Number := do
  let scaled (d : Decimal) : Number :=
    match d.scale 2 with
    | some p => if p.isInteger then .integer p.truncate else .double p.toDouble
    | none => .double (.infinite d.negative)
  let _ ← n.text
  match n with
  | .integer n => return scaled ⟨decide (n < 0), n.natAbs, 0⟩
  | .double (.finite s m e h) => return scaled (Double.finite s m e h).shortest
  | .double x => return .double x

def stop? (name : String) (values : List ComponentValue) : Outcome (Option ColorStop) :=
  let stop (color : ComponentValue) (position : LengthPercentage) : Outcome (Option ColorStop) := do
    return some ⟨← Color.ofValue color, some position⟩
  match lowercase name, ComponentValue.substantial values with
  | "from", [color] => stop color .zero
  | "to", [color] => stop color .whole
  | "color-stop", [position, color] =>
    match position.kind? with
    | some (.number n) => do
      stop color ⟨.percentage (← Outcome.ofParsed (percentageOf n).parsed), ""⟩
    | some (.percentage n) => stop color ⟨.percentage n, position.source⟩
    | _ => pure none
  | _, _ => pure none

def stops : List Argument → Outcome (List ColorStop)
  | [] => pure []
  | a :: arguments =>
    match a.first with
    | .function name _ values _ => do
      let stop ← stop? name values
      return stop.toList ++ (← stops arguments)
    | _ => stops arguments

def points (arguments : List Argument) : List Argument :=
  arguments.filter fun a =>
    match a.first with
    | .function .. => false
    | _ => true

def place (a : Argument) : Parsed (Number × Number) := do
  (← Position.ofArgument a).toPair.pixels 1 1

def direction (start finish : Number × Number) : Computed Number := do
  if start.1.equal finish.1 && start.2.equal finish.2 then return LinearGradient.defaultAngle
  let across ← (← finish.1.sub start.1).toDouble
  let upward ← (← start.2.sub finish.2).toDouble
  return .double ((across.angle upward).toDegrees % 360)

def angle : List Argument → Parsed Number
  | start :: finish :: _ => do direction (← place start) (← place finish)
  | _ => .ok LinearGradient.defaultAngle

def circle : List Argument → Parsed (Option Position × RadialSize)
  | _ :: _ :: center :: radius :: _ => do
    let position ← Position.ofArgument center
    match radius with
    | ⟨.token ⟨.number n, source⟩, []⟩ =>
      return (some position, .lengths ⟨⟨.number n, source⟩, none⟩)
    | _ => return (some position, .extent .farthestCorner)
  | _ => .ok (none, .extent .farthestCorner)

def ofArguments : List Argument → Outcome (LinearGradient ⊕ RadialGradient)
  | [] => Outcome.ofParsed (reject .noGradientType)
  | first :: others =>
    match first.first.keyword? with
    | some "linear" => do
      let stops ← stops others
      return .inl ⟨← Outcome.ofParsed (angle (points others)), stops⟩
    | some "radial" => do
      let stops ← stops others
      let (position, size) ← Outcome.ofParsed (circle (points others))
      return .inr ⟨.circle, size, position, stops⟩
    | _ => Outcome.ofParsed (reject .noGradientType)

def ofValues (values : List ComponentValue) : Outcome (LinearGradient ⊕ RadialGradient) := do
  ofArguments (← Argument.split values)

end PointGradient

end StyleValue
