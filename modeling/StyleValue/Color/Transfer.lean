import StyleValue.Numeric.Arithmetic
import StyleValue.Numeric.Elementary

/-!
# Transfer functions

How a channel as it is stored relates to light: `decode` functions give linear light, `encode`
functions take it. Each is defined for channels that are not negative, and extended to the others
by symmetry.
-/

set_option autoImplicit false

namespace StyleValue

def Computed.power (base : Computed Number) (exponent : Double) : Computed Number := do
  return .double (← Double.power (← (← base).toDouble) exponent)

def Number.withSignOf (x c : Number) : Computed Number := do
  return .double ((← x.toDouble).withSign (← c.toDouble).isNegative)

def Computed.cube (x : Computed Number) : Computed Number := x * x * x

namespace Transfer

/-- Extends a transfer function to negative channels, symmetric to zero. A result beyond all
doubles is infinite; a channel beyond all doubles has none. -/
def symmetric (transfer : Computed Number → Computed Number) (c : Number) : Computed Number :=
  if c.isZero then .ok (.double (.zero false))
  else
    match transfer (.ok c.abs) with
    | .ok x => x.withSignOf c
    | .error .overflow => (Number.double (.infinite false)).withSignOf c
    | .error fault => .error fault

def decodeSrgb : Number → Computed Number := symmetric fun c => do
  if ← Computed.le c 0.04045 then c / 12.92 else ((c + 0.055) / 1.055).power 2.4

def encodeSrgb : Number → Computed Number := symmetric fun c => do
  if ← Computed.lt 0.0031308 c then 1.055 * c.power (1 / 2.4) - 0.055 else 12.92 * c

def decodeA98 : Number → Computed Number := symmetric fun c => c.power (563 / 256)

def encodeA98 : Number → Computed Number := symmetric fun c => c.power (256 / 563)

def decodeProPhoto : Number → Computed Number := symmetric fun c => do
  if ← Computed.lt c (16 / 512) then c / 16 else c.power 1.8

def encodeProPhoto : Number → Computed Number := symmetric fun c => do
  if ← Computed.lt (1 / 512) c then c.power (1 / 1.8) else c * 16

def rec2020Alpha : Computed Number := 1.09929682680944

def rec2020Beta : Computed Number := 0.018053968510807

def decodeRec2020 : Number → Computed Number := symmetric fun c => do
  if ← Computed.lt c (rec2020Beta * 4.5) then c / 4.5
  else ((c + rec2020Alpha - 1) / rec2020Alpha).power (1 / 0.45)

def encodeRec2020 : Number → Computed Number := symmetric fun c => do
  if ← Computed.le rec2020Beta c then rec2020Alpha * c.power 0.45 - (rec2020Alpha - 1)
  else 4.5 * c

end Transfer

end StyleValue
