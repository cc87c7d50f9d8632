import StyleValue.Gradient.Point

/-!
# Images

An image is a URL, which is registered as it is parsed, or a gradient.
-/

set_option autoImplicit false

namespace StyleValue

inductive Image
  | url (url : String)
  | linear (gradient : LinearGradient)
  | radial (gradient : RadialGradient)
deriving DecidableEq

inductive ImageFunction
  | linear
  | vendorLinear
  | radial
  | vendorRadial
  | points
deriving DecidableEq

namespace ImageFunction

def ofName? : String → Option ImageFunction
  | "linear-gradient" => some .linear
  | "-moz-linear-gradient" | "-ms-linear-gradient" | "-o-linear-gradient"
  | "-webkit-linear-gradient" => some .vendorLinear
  | "radial-gradient" => some .radial
  | "-moz-radial-gradient" | "-ms-radial-gradient" | "-o-radial-gradient"
  | "-webkit-radial-gradient" => some .vendorRadial
  | "-webkit-gradient" => some .points
  | _ => none

def apply (f : ImageFunction) (values : List ComponentValue) : Outcome Image := do
  match f with
  | .linear => return .linear (← LinearGradient.ofValues values)
  | .vendorLinear => return .linear (← LinearGradient.ofVendorValues values)
  | .radial => return .radial (← RadialGradient.ofValues values)
  | .vendorRadial => return .radial (← RadialGradient.ofVendorValues values)
  | .points =>
    match ← PointGradient.ofValues values with
    | .inl gradient => return .linear gradient
    | .inr gradient => return .radial gradient

end ImageFunction

namespace Image

def isLinear : Image → Bool
  | .linear _ => true
  | _ => false

def isRadial : Image → Bool
  | .radial _ => true
  | _ => false

def ofValue (v : ComponentValue) : Outcome Image :=
  match v with
  | .token ⟨.url address, _⟩ => do
    Outcome.register address
    return .url address
  | .function name _ values _ =>
    match ImageFunction.ofName? (lowercase name) with
    | some f => f.apply values
    | none => .fail (.unsupportedImage (.function name))
  | _ => .fail (.unsupportedImage (.value v.typeName))

def ofText (text : String) : Outcome Image := do
  let value ← TokenStream.value.run (lexText text)
  ofValue value

end Image

def ComponentValue.isImage (v : ComponentValue) : Bool :=
  match v with
  | .function name _ _ _ => (ImageFunction.ofName? (lowercase name)).isSome
  | _ => !v.isKeyword "none"

end StyleValue
