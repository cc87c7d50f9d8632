import StyleValue.Color.Perceptual
import StyleValue.Quantity.Angle

/-!
# Channels of color functions

The values between the parentheses of a color function as numbers. Commas and spaces separate
alike; alpha comes after a slash, or as one value more. Percentages are scaled to the range of
their channel, and `none` is zero.
-/

set_option autoImplicit false

namespace StyleValue

structure ChannelValues where
  channels : List ComponentValue
  alpha : Option ComponentValue
deriving DecidableEq

def splitSlash (values : List ComponentValue) : List ComponentValue × Option (List ComponentValue) :=
  let before := values.takeWhile fun v => !v.isDelim '/'
  (before, (values.drop before.length).tail?)

/-- Separates a number of channels from the alpha. Fewer channels than none are never found; the
alpha after them would have to be counted from the end. -/
def splitAlpha (count : Int) (values : List ComponentValue) : Parsed ChannelValues :=
  let values := ComponentValue.substantial values
  if values.head?.any (·.isKeyword "from") then reject .relativeSyntax
  else do
    let split : ChannelValues ← match splitSlash values with
      | (channels, some [alpha]) => pure ⟨channels, some alpha⟩
      | (_, some _) => reject .notOneAlpha
      | (_, none) =>
        if (values.length : Int) < -count then misuse .noSuchValue
        else if count + 1 < values.length then reject (.tooManyComponents values.length)
        else pure ⟨values.take count.toNat, values[count.toNat]?⟩
    if split.channels.length = count then return split
    else reject (.wrongComponents count split.channels.length)

def splitChannels (values : List ComponentValue) :
    Parsed (Triple ComponentValue × Option ComponentValue) := do
  let split ← splitAlpha 3 values
  match split.channels with
  | [x, y, z] => return (⟨x, y, z⟩, split.alpha)
  | others => reject (.wrongComponents 3 others.length)

namespace ComponentValue

def channelNumber (percent : Number) (v : ComponentValue) : Parsed Number :=
  match v.kind? with
  | some (.number n) => .ok n
  | some (.percentage n) => (n.mul percent : Computed Number)
  | _ => if v.isKeyword "none" then .ok 0 else reject (.notANumber v)

def hue (v : ComponentValue) : Parsed Number :=
  match v.kind? with
  | some (.number n) => .ok n
  | some (.dimension _ _) => v.degrees
  | _ => if v.isKeyword "none" then .ok 0 else reject (.notAHue v)

def rgbNumber (v : ComponentValue) : Parsed Number :=
  match v.kind? with
  | some (.percentage n) => Computed.parsed do
    let scaled ← ((n : Computed Number) / 100 * 255)
    return .integer (← (scaled.clamp 0 255).roundHalfUp)
  | _ => v.channelNumber 1

end ComponentValue

def hundredth : Number := .double (1 / 100)

def alphaNumber : Option ComponentValue → Parsed Number
  | none => .ok 1
  | some v => v.channelNumber hundredth

inductive ChannelFunction
  | rgb
  | hsl
  | lab
  | lch
  | oklab
  | oklch
deriving DecidableEq

namespace ChannelFunction

def ofName? : String → Option ChannelFunction
  | "rgb" | "rgba" => some .rgb
  | "hsl" | "hsla" => some .hsl
  | "lab" => some .lab
  | "lch" => some .lch
  | "oklab" => some .oklab
  | "oklch" => some .oklch
  | _ => none

def fraction (v : ComponentValue) : Parsed Number := do (← v.channelNumber 1).div 100

def channels (f : ChannelFunction) (v : Triple ComponentValue) : Parsed (Triple Number) := do
  match f with
  | .rgb => return ⟨← v.first.rgbNumber, ← v.second.rgbNumber, ← v.third.rgbNumber⟩
  | .hsl => return ⟨← v.first.hue, ← fraction v.second, ← fraction v.third⟩
  | .lab =>
    return ⟨← v.first.channelNumber 1, ← v.second.channelNumber 1.25, ← v.third.channelNumber 1.25⟩
  | .lch => return ⟨← v.first.channelNumber 1, ← v.second.channelNumber 1.5, ← v.third.hue⟩
  | .oklab =>
    return ⟨← v.first.channelNumber hundredth, ← v.second.channelNumber 0.004,
      ← v.third.channelNumber 0.004⟩
  | .oklch =>
    return ⟨← v.first.channelNumber hundredth, ← v.second.channelNumber 0.004, ← v.third.hue⟩

def extract (f : ChannelFunction) (values : List ComponentValue) : Parsed Coordinates := do
  let (channels, alpha) ← splitChannels values
  return ⟨← f.channels channels, some (← alphaNumber alpha)⟩

def toXyz (f : ChannelFunction) (c : Coordinates) : Computed Coordinates :=
  match f with
  | .rgb => do ColorSpace.srgb.toXyz { c with channels := ← c.channels.mapM fun x => x.div 255 }
  | .hsl => Hsl.toXyz c
  | .lab => Lab.toXyz c
  | .lch => Lch.toXyz c
  | .oklab => Oklab.toXyz c
  | .oklch => Oklch.toXyz c

def pack (f : ChannelFunction) (c : Coordinates) : Computed Color :=
  match f with
  | .rgb => Color.pack c.channels.first c.channels.second c.channels.third c.opacity
  | .hsl => do
    let rgb ← (← Hsl.toRgb c.channels).mapM fun x => x.mul 255
    Color.pack rgb.first rgb.second rgb.third c.opacity
  | _ => do Color.packXyz (← f.toXyz c)

end ChannelFunction

end StyleValue
