import StyleValue.Gradient.Basic

/-!
# Radial gradients

The standard function gives shape, size and position in one argument. The earlier one, with a
vendor's name in front, gives the position first and the shape after it.
-/

set_option autoImplicit false

namespace StyleValue

namespace RadialShape

def ofName? : String → Option RadialShape
  | "circle" => some .circle
  | "ellipse" => some .ellipse
  | _ => none

end RadialShape

namespace RadialExtent

def ofName? : String → Option RadialExtent
  | "closest-side" => some .closestSide
  | "farthest-side" => some .farthestSide
  | "closest-corner" => some .closestCorner
  | "farthest-corner" => some .farthestCorner
  | _ => none

def ofVendorName? : String → Option RadialExtent
  | "contain" => some .closestSide
  | "cover" => some .farthestCorner
  | name => ofName? name

end RadialExtent

structure EndingShape where
  shape : Option RadialShape := none
  extent : Option RadialExtent := none
  lengths : List LengthPercentage := []
  position : Option Position := none
deriving DecidableEq

namespace EndingShape

def size (e : EndingShape) : Option RadialSize :=
  match LengthPair.ofList? e.lengths with
  | some radii => some (.lengths radii)
  | none => e.extent.map .extent

def add? (extentOf : String → Option RadialExtent) (e : EndingShape) (v : ComponentValue) :
    Option EndingShape :=
  match v.keyword?.bind RadialShape.ofName?, v.keyword?.bind extentOf with
  | some shape, _ => some { e with shape := some shape }
  | none, some extent => some { e with extent := some extent }
  | none, none =>
    (LengthPercentage.ofValue? v).map fun l => { e with lengths := e.lengths ++ [l] }

def extend (extentOf : String → Option RadialExtent) (e : EndingShape) :
    List ComponentValue → Parsed EndingShape
  | [] => .ok e
  | v :: vs =>
    if v.isKeyword "at" then do return { e with position := ← Position.ofValues vs }
    else
      match add? extentOf e v with
      | some e => EndingShape.extend extentOf e vs
      | none => reject (.unexpectedInShape v)

def ofArgument (extentOf : String → Option RadialExtent) (a : Argument) :
    Parsed (Option EndingShape) :=
  if a.first.isKeyword "at" || (add? extentOf {} a.first).isSome then
    (EndingShape.extend extentOf {} a.toList).map some
  else .ok none

end EndingShape

namespace RadialGradient

def ofShape (e : EndingShape) (position : Option Position) (stops : List ColorStop) :
    RadialGradient :=
  ⟨e.shape.getD .circle, e.size.getD (.extent .farthestCorner), position, stops⟩

def ofArguments : List Argument → Outcome RadialGradient
  | [] => pure (ofShape {} none [])
  | first :: others => do
    match ← Outcome.ofParsed (EndingShape.ofArgument RadialExtent.ofName? first) with
    | some e => return ofShape e e.position (← ColorStop.ofArguments others)
    | none => return ofShape {} none (← ColorStop.ofArguments (first :: others))

def ofValues (values : List ComponentValue) : Outcome RadialGradient := do
  ofArguments (← Argument.split values)

def startsPosition (v : ComponentValue) : Bool := (PositionComponent.ofValue? v).isSome

def vendorFirst (a : Argument) : Outcome (Option Position × List ColorStop) := do
  if startsPosition a.first then return (some (← Position.ofArgument a), [])
  return (none, [← ColorStop.ofArgument a])

def vendorSecond (a : Argument) : Outcome (EndingShape × List ColorStop) := do
  match ← Outcome.ofParsed (EndingShape.ofArgument RadialExtent.ofVendorName? a) with
  | some e => return (e, [])
  | none => return ({}, [← ColorStop.ofArgument a])

def ofVendorArguments : List Argument → Outcome RadialGradient
  | [] => pure (ofShape {} none [])
  | [first] => do
    let (position, stops) ← vendorFirst first
    return ofShape {} position stops
  | first :: second :: others => do
    let (position, stops) ← vendorFirst first
    let (shape, more) ← vendorSecond second
    return ofShape shape position (stops ++ more ++ (← ColorStop.ofArguments others))

def ofVendorValues (values : List ComponentValue) : Outcome RadialGradient := do
  ofVendorArguments (← Argument.split values)

end RadialGradient

end StyleValue
