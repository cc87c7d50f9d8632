import StyleValue.Component.Argument
import StyleValue.Quantity.Length

/-!
# Positions

A position in a box is a horizontal and a vertical length. Keywords stand for the edges and the
center, a single component is completed by the center of the other axis, and keywords of the two
axes may come in either order.
-/

set_option autoImplicit false

namespace StyleValue

structure Position where
  horizontal : LengthPercentage
  vertical : LengthPercentage
deriving DecidableEq

inductive PositionKeyword
  | center
  | left
  | top
  | right
  | bottom
deriving DecidableEq

namespace PositionKeyword

def ofName? : String → Option PositionKeyword
  | "center" => some .center
  | "left" => some .left
  | "top" => some .top
  | "right" => some .right
  | "bottom" => some .bottom
  | _ => none

def offset : PositionKeyword → LengthPercentage
  | .center => .half
  | .left | .top => .zero
  | .right | .bottom => .whole

def isVertical (k : PositionKeyword) : Bool := k == .top || k == .bottom

def isHorizontal (k : PositionKeyword) : Bool := k == .left || k == .right

end PositionKeyword

structure PositionComponent where
  offset : LengthPercentage
  keyword : Option PositionKeyword
deriving DecidableEq

namespace PositionComponent

def ofValue? (v : ComponentValue) : Option PositionComponent :=
  match v.keyword?.bind PositionKeyword.ofName? with
  | some keyword => some ⟨keyword.offset, some keyword⟩
  | none => (LengthPercentage.ofValue? v).map fun offset => ⟨offset, none⟩

def isVertical (c : PositionComponent) : Bool := c.keyword.any PositionKeyword.isVertical

def isHorizontal (c : PositionComponent) : Bool := c.keyword.any PositionKeyword.isHorizontal

end PositionComponent

namespace Position

def component (v : ComponentValue) : Parsed PositionComponent :=
  match PositionComponent.ofValue? v with
  | some c => .ok c
  | none => reject (.unexpectedInPosition v)

def ofOne (c : PositionComponent) : Position :=
  if c.isVertical then ⟨.half, c.offset⟩ else ⟨c.offset, .half⟩

def ofTwo (c d : PositionComponent) : Position :=
  if c.isVertical || d.isHorizontal then ⟨d.offset, c.offset⟩ else ⟨c.offset, d.offset⟩

def ofArgument (a : Argument) : Parsed Position := do
  let first ← component a.first
  match ← a.others.mapM component with
  | [] => return ofOne first
  | [second] => return ofTwo first second
  | _ => reject .positionTooLong

def ofValues (values : List ComponentValue) : Parsed (Option Position) :=
  match Argument.ofList? (values.filter fun v => !v.isWhitespace) with
  | none => .ok none
  | some argument => (ofArgument argument).map some

def toPair (p : Position) : LengthPair := ⟨p.horizontal, some p.vertical⟩

def toList (p : Position) : List LengthPercentage := [p.horizontal, p.vertical]

end Position

end StyleValue
