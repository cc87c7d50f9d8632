import StyleValue.Numeric.Arithmetic
import StyleValue.Numeric.Written

/-!
# Packed colors

A color as it is displayed: red, green, blue and alpha, a byte each. Numbers are clamped to a byte
when they are packed. Alpha is unpacked with the fewest decimals that pack to its byte again, so
that one half, once packed, is still one half.
-/

set_option autoImplicit false

namespace StyleValue

structure Color where
  red : UInt8
  green : UInt8
  blue : UInt8
  alpha : UInt8
deriving DecidableEq

namespace Color

def transparent : Color := ⟨0, 0, 0, 0⟩

def toNat (c : Color) : Nat :=
  ((c.red.toNat * 256 + c.green.toNat) * 256 + c.blue.toNat) * 256 + c.alpha.toNat

def ofInt (n : Int) : Color :=
  let byte (unit : Int) : UInt8 := UInt8.ofNat (n / unit % 256).toNat
  ⟨byte 0x1000000, byte 0x10000, byte 0x100, byte 1⟩

def isTransparent (c : Color) : Bool := c.alpha == 0

def byteOf (n : Int) : UInt8 := UInt8.ofNat n.toNat

def channelByte (channel : Number) : Computed UInt8 := do
  if ← channel.isNotANumber then return 0
  return byteOf (← (channel.clamp 0 255).truncate)

def alphaByte (alpha : Number) : Computed UInt8 := do
  let clamped : Number := if ← alpha.isNotANumber then 0 else alpha.clamp 0 1
  return byteOf (← (← clamped.mul 255).roundHalfUp)

def pack (red green blue alpha : Number) : Computed Color := do
  return ⟨← channelByte red, ← channelByte green, ← channelByte blue, ← alphaByte alpha⟩

def packsTo (alpha : Double) (byte : UInt8) : Bool := (alpha * 255 + 0.5).value.floor == byte.toNat

def unpackAlpha (byte : UInt8) : Double :=
  let fraction := Double.ofRat ((byte.toNat : Rat) / 255)
  match [0, 1, 2].find? fun decimals => packsTo (fraction.roundTo decimals) byte with
  | some decimals => fraction.roundTo decimals
  | none => fraction.roundTo 3

def toText (c : Color) : String :=
  let channels := Nat.repr c.red.toNat ++ "," ++ Nat.repr c.green.toNat ++ "," ++
    Nat.repr c.blue.toNat
  let alpha := unpackAlpha c.alpha
  if (Number.double alpha).lt 1 then "rgba(" ++ channels ++ "," ++ alpha.text ++ ")"
  else "rgb(" ++ channels ++ ")"

end Color

end StyleValue
