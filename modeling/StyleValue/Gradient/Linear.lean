import StyleValue.Gradient.Basic

/-!
# Linear gradients

The standard function, and the earlier one with a vendor's name in front, in which a side is where
the gradient comes from and angles turn the other way.
-/

set_option autoImplicit false

namespace StyleValue

namespace LinearGradient

def defaultAngle : Number := 180

def ofArguments (direction : Argument → Parsed (Option Number)) :
    List Argument → Outcome LinearGradient
  | [] => pure ⟨defaultAngle, []⟩
  | first :: others => do
    match ← Outcome.ofParsed (direction first) with
    | some angle => return ⟨angle, ← ColorStop.ofArguments others⟩
    | none => return ⟨defaultAngle, ← ColorStop.ofArguments (first :: others)⟩

def direction (a : Argument) : Parsed (Option Number) :=
  if a.first.isKeyword "to" then (namedSide a.toList).map some
  else if a.first.isAngleOrZero then a.first.degrees.map some
  else .ok none

def vendorDirection (a : Argument) : Parsed (Option Number) :=
  if ["top", "left", "right", "bottom"].any a.first.isKeyword then (namedSide a.toList).map some
  else if a.first.isAngleOrZero then do
    let degrees ← a.first.degrees
    let turned : Computed Number := (90 - .ok degrees) % 360
    return some (← turned)
  else .ok none

def ofValues (values : List ComponentValue) : Outcome LinearGradient := do
  ofArguments direction (← Argument.split values)

def ofVendorValues (values : List ComponentValue) : Outcome LinearGradient := do
  ofArguments vendorDirection (← Argument.split values)

end LinearGradient

end StyleValue
