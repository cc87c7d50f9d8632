import StyleValue.Color.Basic
import StyleValue.Color.Matrix
import StyleValue.Color.Transfer

/-!
# Predefined color spaces

The spaces that a color can be given in by its channels. All of them connect through XYZ relative
to the white point D65, and a color is displayed by way of sRGB: its channels are rounded to bytes
only there.
-/

set_option autoImplicit false

namespace StyleValue

inductive WhitePoint
  | d50
  | d65
deriving DecidableEq

structure RgbSpace where
  decode : Number → Computed Number
  encode : Number → Computed Number
  toXyz : Matrix
  fromXyz : Matrix
  white : WhitePoint := .d65

namespace RgbSpace

def srgb : RgbSpace where
  decode := Transfer.decodeSrgb
  encode := Transfer.encodeSrgb
  toXyz := {
    first := ⟨0.41239079926595934, 0.357584339383878, 0.1804807884018343⟩
    second := ⟨0.21263900587151027, 0.715168678767756, 0.07219231536073371⟩
    third := ⟨0.01933081871559182, 0.11919477979462598, 0.9505321522496607⟩ }
  fromXyz := {
    first := ⟨3.2409699419045226, -1.537383177570094, -0.4986107602930034⟩
    second := ⟨-0.9692436362808796, 1.8759675015077202, 0.04155505740717559⟩
    third := ⟨0.05563007969699366, -0.20397695888897652, 1.0569715142428786⟩ }

def displayP3 : RgbSpace where
  decode := Transfer.decodeSrgb
  encode := Transfer.encodeSrgb
  toXyz := {
    first := ⟨0.4865709486482162, 0.26566769316909306, 0.1982172852343625⟩
    second := ⟨0.2289745640697488, 0.6917385218365064, 0.079286914093745⟩
    third := ⟨0, 0.04511338185890264, 1.043944368900976⟩ }
  fromXyz := {
    first := ⟨2.493496911941425, -0.9313836179191239, -0.40271078445071684⟩
    second := ⟨-0.8294889695615747, 1.7626640603183463, 0.023624685841943577⟩
    third := ⟨0.03584583024378447, -0.07617238926804182, 0.9568845240076872⟩ }

def a98 : RgbSpace where
  decode := Transfer.decodeA98
  encode := Transfer.encodeA98
  toXyz := {
    first := ⟨0.5766690429101305, 0.1855582379065463, 0.1882286462349947⟩
    second := ⟨0.29734497525053605, 0.6273635662554661, 0.0752914584939978⟩
    third := ⟨0.02703136138641234, 0.07068885253582723, 0.9913375368376388⟩ }
  fromXyz := {
    first := ⟨2.0415879038107465, -0.5650069742788596, -0.34473135077832956⟩
    second := ⟨-0.9692436362808795, 1.8759675015077202, 0.04155505740717557⟩
    third := ⟨0.013444280632031142, -0.11836239223101838, 1.0151749943912054⟩ }

def proPhoto : RgbSpace where
  decode := Transfer.decodeProPhoto
  encode := Transfer.encodeProPhoto
  toXyz := {
    first := ⟨0.7977666449006423, 0.13518129740053308, 0.0313477341283922⟩
    second := ⟨0.2880748288194013, 0.711835234241873, 0.00008993693872564⟩
    third := ⟨0, 0, 0.8251046025104602⟩ }
  fromXyz := {
    first := ⟨1.3457868816471583, -0.25557208737979464, -0.05110186497554526⟩
    second := ⟨-0.5446307051249019, 1.5082477428451468, 0.02052744743642139⟩
    third := ⟨0, 0, 1.2119675456389452⟩ }
  white := .d50

def rec2020 : RgbSpace where
  decode := Transfer.decodeRec2020
  encode := Transfer.encodeRec2020
  toXyz := {
    first := ⟨0.6369580483012914, 0.14461690358620832, 0.1688809751641721⟩
    second := ⟨0.2627002120112671, 0.6779980715188708, 0.05930171646986196⟩
    third := ⟨0, 0.028072693049087428, 1.060985057710791⟩ }
  fromXyz := {
    first := ⟨1.716651187971268, -0.355670783776392, -0.25336628137366⟩
    second := ⟨-0.666684351832489, 1.616481236634939, 0.0157685458139111⟩
    third := ⟨0.017639857445311, -0.042770613257809, 0.942103121235474⟩ }

def channelsToXyz (s : RgbSpace) (channels : Triple Number) : Computed (Triple Number) := do
  let xyz ← s.toXyz.multiply (← channels.mapM s.decode)
  match s.white with
  | .d65 => return xyz
  | .d50 => adaptToD65.multiply xyz

def channelsOfXyz (s : RgbSpace) (xyz : Triple Number) : Computed (Triple Number) := do
  let adapted ← match s.white with
    | .d65 => pure xyz
    | .d50 => adaptToD50.multiply xyz
  (← s.fromXyz.multiply adapted).mapM s.encode

end RgbSpace

namespace Color

def unitByte (channel : Number) : Computed Number := do
  if ← channel.isNotANumber then return 0
  return .integer (← ((← channel.mul 255).clamp 0 255).roundHalfUp)

def packSrgb (c : Coordinates) : Computed Color := do
  let bytes ← c.channels.mapM unitByte
  pack bytes.first bytes.second bytes.third (c.opacity.clamp 0 1)

def packLinear (c : Coordinates) : Computed Color := do
  packSrgb { c with channels := ← c.channels.mapM Transfer.encodeSrgb }

def packXyz (c : Coordinates) : Computed Color := do
  packLinear { c with channels := ← RgbSpace.srgb.fromXyz.multiply c.channels }

end Color

inductive ColorSpace
  | srgb
  | srgbLinear
  | displayP3
  | a98
  | proPhoto
  | rec2020
  | xyzD65
  | xyzD50
deriving DecidableEq

namespace ColorSpace

def ofName? : String → Option ColorSpace
  | "srgb" => some .srgb
  | "srgb-linear" => some .srgbLinear
  | "display-p3" => some .displayP3
  | "a98-rgb" => some .a98
  | "prophoto-rgb" => some .proPhoto
  | "rec2020" => some .rec2020
  | "xyz" | "xyz-d65" => some .xyzD65
  | "xyz-d50" => some .xyzD50
  | _ => none

def channelNames : ColorSpace → Triple String
  | .xyzD65 | .xyzD50 => ⟨"x", "y", "z"⟩
  | _ => ⟨"r", "g", "b"⟩

def channelsToXyz : ColorSpace → Triple Number → Computed (Triple Number)
  | .srgb => RgbSpace.srgb.channelsToXyz
  | .srgbLinear => RgbSpace.srgb.toXyz.multiply
  | .displayP3 => RgbSpace.displayP3.channelsToXyz
  | .a98 => RgbSpace.a98.channelsToXyz
  | .proPhoto => RgbSpace.proPhoto.channelsToXyz
  | .rec2020 => RgbSpace.rec2020.channelsToXyz
  | .xyzD65 => fun xyz => .ok xyz
  | .xyzD50 => adaptToD65.multiply

def channelsOfXyz : ColorSpace → Triple Number → Computed (Triple Number)
  | .srgb => RgbSpace.srgb.channelsOfXyz
  | .srgbLinear => RgbSpace.srgb.fromXyz.multiply
  | .displayP3 => RgbSpace.displayP3.channelsOfXyz
  | .a98 => RgbSpace.a98.channelsOfXyz
  | .proPhoto => RgbSpace.proPhoto.channelsOfXyz
  | .rec2020 => RgbSpace.rec2020.channelsOfXyz
  | .xyzD65 => fun xyz => .ok xyz
  | .xyzD50 => adaptToD50.multiply

def toXyz (s : ColorSpace) (c : Coordinates) : Computed Coordinates := c.convert s.channelsToXyz

def ofXyz (s : ColorSpace) (c : Coordinates) : Computed Coordinates := c.convert s.channelsOfXyz

def pack (s : ColorSpace) (c : Coordinates) : Computed Color :=
  match s with
  | .srgb => Color.packSrgb c
  | .srgbLinear => Color.packLinear c
  | _ => do Color.packXyz (← s.toXyz c)

end ColorSpace

end StyleValue
