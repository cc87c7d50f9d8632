import StyleValue.Color.Parser
import StyleValue.Component.Argument
import StyleValue.Quantity.Position

/-!
# Gradients

A gradient is resolved as far as its text allows: directions become degrees, while positions, sizes
and stops stay the lengths that were written.
-/

set_option autoImplicit false

namespace StyleValue

structure ColorStop where
  color : Color
  position : Option LengthPercentage
deriving DecidableEq

structure LinearGradient where
  angle : Number
  stops : List ColorStop
deriving DecidableEq

inductive RadialShape
  | circle
  | ellipse
deriving DecidableEq

inductive RadialExtent
  | closestSide
  | farthestSide
  | closestCorner
  | farthestCorner
deriving DecidableEq

inductive RadialSize
  | extent (extent : RadialExtent)
  | lengths (radii : LengthPair)
deriving DecidableEq

structure RadialGradient where
  shape : RadialShape
  size : RadialSize
  position : Option Position
  stops : List ColorStop
deriving DecidableEq

namespace ColorStop

def ofArgument (a : Argument) : Outcome ColorStop := do
  return ⟨← Color.ofValue a.first, a.others.head?.bind LengthPercentage.ofValue?⟩

def ofArguments (arguments : List Argument) : Outcome (List ColorStop) := arguments.mapM ofArgument

end ColorStop

end StyleValue
