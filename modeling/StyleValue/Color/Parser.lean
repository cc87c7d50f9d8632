import StyleValue.Color.Channels
import StyleValue.Color.Named
import StyleValue.Component.Parser
import StyleValue.Quantity.Calc

/-!
# Parsing of colors

A color is a hash of hexadecimal digits, a name, or a function. What is none of them is reported
and taken to be transparent; a function that is unknown, or has the wrong values, is refused. A
relative color takes an origin color, and its channels may be calculated from those of the origin
in the space that is asked for.
-/

set_option autoImplicit false

namespace StyleValue

namespace Color

def ofHex? (digits : List Char) : Option Color :=
  let byte (high low : Char) : UInt8 := UInt8.ofNat (16 * hexValue high + hexValue low)
  if digits.all isHexDigit then
    match digits with
    | [r, g, b] => some ⟨byte r r, byte g g, byte b b, 255⟩
    | [r, g, b, a] => some ⟨byte r r, byte g g, byte b b, byte a a⟩
    | [r, r', g, g', b, b'] => some ⟨byte r r', byte g g', byte b b', 255⟩
    | [r, r', g, g', b, b', a, a'] => some ⟨byte r r', byte g g', byte b b', byte a a'⟩
    | _ => none
  else none

def ofPlain (v : ComponentValue) : Outcome Color :=
  match v.kind? with
  | some (.hash digits _) =>
    match ofHex? digits.toList with
    | some color => pure color
    | none => do
      Outcome.report (.invalidHexColor digits)
      return transparent
  | some (.ident name) =>
    match ofName? (lowercase name) with
    | some color => pure color
    | none => do
      Outcome.report (.unknownColorName name)
      return transparent
  | _ => do
    Outcome.report (.unsupportedColor v)
    return transparent

def toXyz (c : Color) : Computed Coordinates := do
  let channel (byte : UInt8) : Computed Number := (Number.integer byte.toNat).div 255
  ColorSpace.srgb.toXyz ⟨⟨← channel c.red, ← channel c.green, ← channel c.blue⟩,
    some (.double (unpackAlpha c.alpha))⟩

def originToXyz (v : ComponentValue) : Outcome Coordinates :=
  match v with
  | .function name _ values _ =>
    match ChannelFunction.ofName? (lowercase name) with
    | some f => Outcome.ofParsed do f.toXyz (← f.extract values)
    | none => .fail (.unsupportedColor (.origin name))
  | _ => do
    let color ← ofPlain v
    Outcome.ofParsed (toXyz color)

def relativeChannel (bindings : Bindings) (v : ComponentValue) : Parsed Number :=
  match v with
  | .token ⟨.number n, _⟩ => .ok n
  | .token ⟨.percentage n, _⟩ => n.div 100
  | .function name _ values _ =>
    if lowercase name = "calc" then Calc.evaluate bindings values
    else reject (.unexpectedInRelative v)
  | _ =>
    match v.keyword?.bind fun name => bindings.lookup name with
    | some n => .ok n
    | none => if v.isKeyword "none" then .ok 0 else reject (.unexpectedInRelative v)

def ofRelativeChannels (space : ColorSpace) (origin : Coordinates) (values : List ComponentValue) :
    Parsed Color := do
  let names := space.channelNames
  let bindings : Bindings := [(names.first, origin.channels.first),
    (names.second, origin.channels.second), (names.third, origin.channels.third),
    ("alpha", origin.opacity)]
  let (channels, alpha) ← splitChannels values
  let resolve := relativeChannel bindings
  let resolved : Triple Number :=
    ⟨← resolve channels.first, ← resolve channels.second, ← resolve channels.third⟩
  let alpha ← match alpha with
    | none => pure origin.opacity
    | some v => resolve v
  space.pack ⟨resolved, some alpha⟩

def relative (space : ColorSpace) (origin : ComponentValue) (values : List ComponentValue) :
    Outcome Color := do
  let xyz ← originToXyz origin
  Outcome.ofParsed do ofRelativeChannels space (← space.ofXyz xyz) values

def spaceOf (v : ComponentValue) : Parsed ColorSpace :=
  match v.keyword?.bind ColorSpace.ofName? with
  | some space => .ok space
  | none => reject (.unsupportedSpace v)

def ofSpaceChannels (space : ColorSpace) (values : List ComponentValue) : Parsed Color := do
  let (channels, alpha) ← splitChannels values
  let number := ComponentValue.channelNumber hundredth
  let resolved : Triple Number :=
    ⟨← number channels.first, ← number channels.second, ← number channels.third⟩
  space.pack ⟨resolved, some (← alphaNumber alpha)⟩

def ofColorFunction (values : List ComponentValue) : Outcome Color :=
  let direct : List ComponentValue → Outcome Color
    | [] => Outcome.ofParsed (reject .noSpace)
    | space :: channels => Outcome.ofParsed do ofSpaceChannels (← spaceOf space) channels
  match ComponentValue.substantial values with
  | keyword :: origin :: space :: channels =>
    if keyword.isKeyword "from" then do
      let space ← Outcome.ofParsed (spaceOf space)
      relative space origin channels
    else direct (keyword :: origin :: space :: channels)
  | values => direct values

def ofValue (v : ComponentValue) : Outcome Color :=
  match v with
  | .function name _ values _ =>
    match ChannelFunction.ofName? (lowercase name) with
    | some f => Outcome.ofParsed do f.pack (← f.extract values)
    | none =>
      if lowercase name = "color" then ofColorFunction values
      else .fail (.unsupportedColor (.function name))
  | _ => ofPlain v

def ofText (text : String) : Outcome Color := do
  let tokens ← (lexText text).readAll
  let value ← TokenStream.value.run (.ofTokens tokens)
  ofValue value

end Color

end StyleValue
