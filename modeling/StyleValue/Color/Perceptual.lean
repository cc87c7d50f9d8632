import StyleValue.Color.Space

/-!
# Cylindrical and perceptual coordinates

HSL, Lab and LCH, Oklab and OkLCh. Hues are in degrees. The formulas of HSL are written for any
arithmetic, so that they can be read over the rationals as well.
-/

set_option autoImplicit false

namespace StyleValue

namespace Hsl

variable {α : Type} [Arithmetic α]

def channel (low high hue : Computed α) : Computed α := do
  let turn := hue % 1
  if ← Computed.lt turn (1 / 6) then (high - low) * turn * 6 + low
  else if ← Computed.lt turn (1 / 2) then high
  else if ← Computed.lt turn (2 / 3) then (high - low) * (2 / 3 - turn) * 6 + low
  else low

def bounds (saturation lightness : Computed α) : Computed (α × α) := do
  let high := if ← Computed.le lightness (1 / 2) then lightness * (saturation + 1)
    else lightness + saturation - lightness * saturation
  return (← lightness * 2 - high, ← high)

def channels (hue : α) (low high : α) : Computed (Triple α) := do
  let turn : Computed α := .ok hue / 360
  return ⟨← channel (.ok low) (.ok high) (turn + 1 / 3), ← channel (.ok low) (.ok high) turn,
    ← channel (.ok low) (.ok high) (turn - 1 / 3)⟩

def toRgb (hsl : Triple α) : Computed (Triple α) := do
  if Arithmetic.isZero hsl.second then return ⟨hsl.third, hsl.third, hsl.third⟩
  let (low, high) ← bounds (.ok hsl.second) (.ok hsl.third)
  channels hsl.first low high

def toXyz (c : Coordinates) : Computed Coordinates := do
  ColorSpace.srgb.toXyz { c with channels := ← toRgb c.channels }

end Hsl

namespace Lab

def white : Triple (Computed Number) :=
  ⟨0.3457 / 0.3585, 1.0, (1 - 0.3457 - 0.3585) / 0.3585⟩

def kappa : Computed Number := 24389 / 27

def epsilon : Computed Number := 24 / 116

def light (f : Computed Number) : Computed Number := do
  if ← Computed.lt epsilon f then f.cube else (116 * f - 16) / kappa

def toXyzD50 (lab : Triple Number) : Computed (Triple Number) := do
  let l : Computed Number := lab.first
  let fy := (l + 16) / 116
  let fx := (lab.second : Computed Number) / 500 + fy
  let fz := fy - (lab.third : Computed Number) / 200
  let y : Computed Number := do if ← Computed.lt 8 l then fy.cube else l / kappa
  return ⟨← light fx * white.first, ← y * white.second, ← light fz * white.third⟩

def toXyz (c : Coordinates) : Computed Coordinates :=
  c.convert fun lab => do adaptToD65.multiply (← toXyzD50 lab)

end Lab

namespace Lch

def radians (hue : Number) : Computed Double := do
  let within : Number ← if ← hue.isFinite then hue.mod 360 else pure 0
  return (← within.toDouble).toRadians

def toLab (c : Coordinates) : Computed Coordinates := do
  let ⟨lightness, chroma, hue⟩ := c.channels
  let chroma := chroma.larger 0
  let angle ← radians hue
  return ⟨⟨lightness, ← chroma.mul angle.cosine, ← chroma.mul angle.sine⟩, c.alpha⟩

def toXyz (c : Coordinates) : Computed Coordinates := do Lab.toXyz (← toLab c)

end Lch

namespace Oklab

def toLms : Matrix where
  first := ⟨1, 0.3963377773761749, 0.2158037573099136⟩
  second := ⟨1, -0.1055613458156586, -0.0638541728258133⟩
  third := ⟨1, -0.0894841775298119, -1.2914855480194092⟩

def lmsToXyz : Matrix where
  first := ⟨1.2268798758459243, -0.5578149944602171, 0.2813910456659647⟩
  second := ⟨-0.0405757452148008, 1.112286803280317, -0.0717110580655164⟩
  third := ⟨-0.0763729366746601, -0.4214933324022432, 1.5869240198367816⟩

def toXyz (c : Coordinates) : Computed Coordinates :=
  c.convert fun lab => do
    let lms ← toLms.multiply lab
    lmsToXyz.multiply (← lms.mapM fun x => Computed.cube (.ok x))

end Oklab

def Oklch.toXyz (c : Coordinates) : Computed Coordinates := do Oklab.toXyz (← Lch.toLab c)

end StyleValue
