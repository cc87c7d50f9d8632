import StyleValue.Image

/-!
# Values of properties

What the single properties make of their values. Most fall back to a default for what they do not
know; `z-index` refuses it.
-/

set_option autoImplicit false

namespace StyleValue

inductive PaintLayer
  | fill
  | stroke
  | markers
deriving DecidableEq

inductive BackgroundBox
  | borderBox
  | paddingBox
  | contentBox
deriving DecidableEq

inductive BackgroundRepeat
  | repeatBoth
  | noRepeat
  | repeatX
  | repeatY
deriving DecidableEq

structure ZIndex where
  auto : Bool
  order : Number
deriving DecidableEq

inductive Visibility
  | visible
  | hidden
  | collapse
deriving DecidableEq

inductive PropertyValue
  | layers (layers : List PaintLayer)
  | images (images : List Image)
  | boxes (boxes : List BackgroundBox)
  | repeats (repeats : List BackgroundRepeat)
  | color (color : Color)
  | image (image : Image)
  | zIndex (index : ZIndex)
  | visibility (visibility : Visibility)
  | unparsed (value : ComponentValue)
deriving DecidableEq

namespace PaintLayer

def ofName? : String → Option PaintLayer
  | "fill" => some .fill
  | "stroke" => some .stroke
  | "markers" => some .markers
  | _ => none

def all : List PaintLayer := [.fill, .stroke, .markers]

def insert (layers : List PaintLayer) (layer : PaintLayer) : List PaintLayer :=
  if layers.contains layer then layers else layers ++ [layer]

def ofValues (values : List ComponentValue) : List PaintLayer :=
  let named := values.filterMap fun v => v.keyword?.bind ofName?
  (named ++ all).foldl insert []

end PaintLayer

/-- The images of values, white space and commas left out. Functions that make no image are
reported and left out; `none` in front leaves out all. -/
def backgroundImages (values : List ComponentValue) : Outcome (List Image) :=
  let values := ComponentValue.substantial values
  let layer (v : ComponentValue) : Outcome (Option Image) := do
    if v.isImage then return some (← Image.ofValue v)
    Outcome.report (.unsupportedImage v)
    return none
  if values.head?.any (·.isKeyword "none") then pure []
  else do return (← values.mapM layer).filterMap id

namespace BackgroundBox

def ofName? : String → Option BackgroundBox
  | "border-box" => some .borderBox
  | "padding-box" => some .paddingBox
  | "content-box" => some .contentBox
  | _ => none

def ofArgument (a : Argument) : BackgroundBox := (a.first.keyword?.bind ofName?).getD .borderBox

def ofValues (values : List ComponentValue) : Parsed (List BackgroundBox) :=
  (Argument.split values).map (List.map ofArgument)

end BackgroundBox

namespace BackgroundRepeat

def ofClause? : String → Option BackgroundRepeat
  | "repeat" | "repeat repeat" => some .repeatBoth
  | "no-repeat" | "no-repeat no-repeat" => some .noRepeat
  | "repeat-x" | "repeat no-repeat" => some .repeatX
  | "repeat-y" | "no-repeat repeat" => some .repeatY
  | _ => none

def ofArgument (a : Argument) : BackgroundRepeat :=
  (ofClause? (keywordClause a.toList)).getD .repeatBoth

def ofValues (values : List ComponentValue) : Parsed (List BackgroundRepeat) :=
  (Argument.split values).map (List.map ofArgument)

end BackgroundRepeat

def ZIndex.ofReading (r : Reading) : Parsed ZIndex :=
  match r with
  | .value v =>
    match v.kind? with
    | some (.number n) => .ok ⟨false, n⟩
    | _ => if v.isKeyword "auto" then .ok ⟨true, 0⟩ else reject (.invalidZIndex r)
  | .values _ | .name _ => reject (.invalidZIndex r)

def Visibility.ofName (name : String) : Visibility :=
  match lowercase name with
  | "hidden" => .hidden
  | "collapse" => .collapse
  | _ => .visible

/-- The pixels of a line for a font of a given size: a number is a multiple of it, a percentage a
part of it, and anything else that is no length is the size itself. -/
def lineHeight (v : ComponentValue) (fontSize : Number) : Computed Number :=
  if v.isKeyword "normal" then Number.mul 1.2 fontSize
  else
    match LengthPercentage.ofValue? v with
    | some ⟨.number n, _⟩ => n.mul fontSize
    | some l => l.pixels fontSize
    | none => .ok fontSize

end StyleValue
