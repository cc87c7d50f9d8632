import StyleValue.Proofs.Color.Alpha

/-!
# Alphas that are not numbers

An alpha is packed on its own, so that the lowest byte of a color is that of its alpha, whatever the
channels are and however they are packed. Some colors are packed as they are, and others by way of
sRGB, which clamps the alpha first. That makes no difference to a number; what is not a number is
transparent if it is packed at once, and opaque if it is clamped before.
-/

set_option autoImplicit false

namespace StyleValue

open Color

def Coordinates.ofDoubles (c₁ c₂ c₃ a : Double) : Coordinates :=
  ⟨⟨.double c₁, .double c₂, .double c₃⟩, some (.double a)⟩

def Color.HasLowest (byte : UInt8) (x : Computed Color) : Prop :=
  ∃ color, x = .ok color ∧ color.toNat % 256 = byte.toNat

namespace Color

theorem exists_alphaByte {alpha : Number} (h : alpha.Fits True (.bits 1010)) :
    ∃ byte, alphaByte alpha = .ok byte := by
  have hmeets : Meets (Overflow True False) (fun _ => True) (alphaByte alpha) := alphaByte_meets h
  obtain ⟨byte, hbyte, -⟩ := (hmeets.mono (fun _ hfault => hfault.2 trivial) fun _ h => h).exists_ok
  exact ⟨byte, hbyte⟩

theorem alphaByte_notANumber : alphaByte (.double .notANumber) = .ok 0 :=
  eq_ok_of_toOption (by decide +kernel)

theorem alphaByte_clamp_notANumber :
    alphaByte ((Number.double .notANumber).clamp 0 1) = .ok 255 := by
  have hclamp : (Number.double .notANumber).clamp 0 1 = 1 := by decide
  rw [hclamp, alphaByte_one]

/-- The bytes of a double, packed as it is and after it was clamped: they differ if it is not a
number, and only then. -/
theorem exists_alphaBytes (a : Double) : ∃ plain clamped : UInt8,
    alphaByte (.double a) = .ok plain ∧ alphaByte ((Number.double a).clamp 0 1) = .ok clamped ∧
      (a ≠ .notANumber → clamped = plain) ∧ (a = .notANumber → plain = 0 ∧ clamped = 255) := by
  by_cases h : a = .notANumber
  · rw [h]
    exact ⟨0, 255, alphaByte_notANumber, alphaByte_clamp_notANumber, fun hne => absurd rfl hne,
      fun _ => ⟨rfl, rfl⟩⟩
  · obtain ⟨byte, hbyte⟩ := exists_alphaByte (Number.fits_double a (.bits 1010))
    have hclamped := alphaByte_clamp (Number.isDefined_double h) hbyte
    exact ⟨byte, byte, hbyte, hclamped, fun _ => rfl, fun hnan => absurd hnan h⟩

theorem hasLowest_of_meets {byte : UInt8} {x : Computed Color}
    (h : Meets (Overflow True False) (fun _ => True) x)
    (hbyte : Meets (fun _ => True) (fun color => color.alpha = byte) x) : HasLowest byte x := by
  obtain ⟨color, hcolor, -⟩ := (h.mono (fun _ hfault => hfault.2 trivial) fun _ h => h).exists_ok
  exact ⟨color, hcolor, by rw [toNat_mod, hbyte.of_ok hcolor]⟩

section

variable {a : Double} {byte : UInt8} (c₁ c₂ c₃ : Double)

theorem pack_hasLowest {red green blue : Number} (hred : red.Fits True (.bits 1010))
    (hgreen : green.Fits True (.bits 1010)) (hblue : blue.Fits True (.bits 1010))
    (h : alphaByte (.double a) = .ok byte) : HasLowest byte (pack red green blue (.double a)) := by
  apply hasLowest_of_meets (pack_meets hred hgreen hblue (Number.fits_double a _))
  apply (pack_alpha _ _ _ _).weaken
  intro color hcolor
  exact Except.ok.inj (hcolor.symm.trans h)

theorem space_hasLowest (space : ColorSpace)
    (h : alphaByte ((Number.double a).clamp 0 1) = .ok byte) :
    HasLowest byte (space.pack (.ofDoubles c₁ c₂ c₃ a)) := by
  have hfits : Coordinates.Fits True (.bits 1010) (.bits 1010) (.ofDoubles c₁ c₂ c₃ a) :=
    ⟨⟨Number.fits_double _ _, Number.fits_double _ _, Number.fits_double _ _⟩,
      Number.fits_double _ _⟩
  apply hasLowest_of_meets (space.pack_meets hfits)
  apply (space.pack_opacity _).weaken
  intro color hcolor
  exact Except.ok.inj (hcolor.symm.trans h)

theorem function_hasLowest (f : ChannelFunction) {plain clamped : UInt8}
    (hplain : alphaByte (.double a) = .ok plain)
    (hclamped : alphaByte ((Number.double a).clamp 0 1) = .ok clamped) :
    HasLowest (if f.IsDirect then plain else clamped) (f.pack (.ofDoubles c₁ c₂ c₃ a)) := by
  have hsuits : f.Suits True (Coordinates.ofDoubles c₁ c₂ c₃ a).channels :=
    ⟨⟨Number.fits_double _ _, Number.fits_double _ _, Number.fits_double _ _⟩,
      fun _ => ⟨Number.fits_double _ _, Number.fits_double _ _⟩⟩
  apply hasLowest_of_meets (f.pack_meets hsuits (Number.fits_double _ _))
  split
  · next hdirect =>
    apply (f.pack_direct_alpha hdirect _).weaken
    intro color hcolor
    exact Except.ok.inj (hcolor.symm.trans hplain)
  · next hdetour =>
    apply (f.pack_detour_opacity hdetour _).weaken
    intro color hcolor
    exact Except.ok.inj (hcolor.symm.trans hclamped)

end

/-- The lowest byte of a color is one function of the alpha for all channels and all ways of packing
that clamp the alpha first, and another one for those that do not. The two differ at what is not a
number only, which is transparent for the one and opaque for the other. -/
theorem alpha_packed_alike (a : Double) : ∃ plain clamped : UInt8,
    HasLowest plain (pack 0 0 0 (.double a)) ∧
    (∀ r g b : Double, HasLowest clamped (packSrgb (.ofDoubles r g b a))) ∧
    (∀ (space : ColorSpace) (c₁ c₂ c₃ : Double),
      HasLowest clamped (space.pack (.ofDoubles c₁ c₂ c₃ a))) ∧
    (∀ (f : ChannelFunction) (c₁ c₂ c₃ : Double),
      HasLowest (if f.IsDirect then plain else clamped) (f.pack (.ofDoubles c₁ c₂ c₃ a))) ∧
    (a ≠ .notANumber → clamped = plain) ∧
    (a = .notANumber → plain = 0 ∧ clamped = 255) := by
  obtain ⟨plain, clamped, hplain, hclamped, hnumber, hnan⟩ := exists_alphaBytes a
  have hzero : (0 : Number).Fits True (.bits 1010) :=
    (Number.fits_nat 0 0 (by decide)).mono (Nat.zero_le 1010)
  refine ⟨plain, clamped, pack_hasLowest hzero hzero hzero hplain, ?_, ?_, ?_, hnumber, hnan⟩
  · intro r g b
    exact space_hasLowest r g b .srgb hclamped
  · intro space c₁ c₂ c₃
    exact space_hasLowest c₁ c₂ c₃ space hclamped
  · intro f c₁ c₂ c₃
    exact function_hasLowest c₁ c₂ c₃ f hplain hclamped

/-- An alpha beyond the range is a number, and packed alike. -/
theorem alpha_packed_alike_infinite :
    (Double.infinite true ≠ .notANumber) ∧ ∃ byte : UInt8,
      HasLowest byte (pack 0 0 0 (.double (.infinite true))) ∧
      HasLowest byte (packSrgb (.ofDoubles 1 2 3 (.infinite true))) := by
  have hnumber : Double.infinite true ≠ .notANumber := by decide
  obtain ⟨plain, clamped, hplain, hclamped, -, -, hsame, -⟩ := alpha_packed_alike (.infinite true)
  exact ⟨hnumber, plain, hplain, hsame hnumber ▸ hclamped 1 2 3⟩

/-- What is not a number is opaque once it is clamped, and in text as well. -/
theorem notANumber_opaque_clamped :
    packSrgb (.ofDoubles 0 0 0 .notANumber) = .ok ⟨0, 0, 0, 255⟩ ∧
    pack 0 0 0 (.double .notANumber) = .ok ⟨0, 0, 0, 0⟩ ∧
    (ofText "color(from #000 srgb 0 0 0 / calc(1e400 - 1e400))").result = .ok ⟨0, 0, 0, 255⟩ ∧
    ¬ ∀ r g b a : Double, ∃ byte, HasLowest byte (packSrgb (.ofDoubles r g b a)) ∧
      HasLowest byte (pack 0 0 0 (.double a)) := by
  have hclamped : packSrgb (.ofDoubles 0 0 0 .notANumber) = .ok ⟨0, 0, 0, 255⟩ := by decide +kernel
  have hplain : pack 0 0 0 (.double .notANumber) = .ok ⟨0, 0, 0, 0⟩ := by decide +kernel
  refine ⟨hclamped, hplain, by decide +kernel, fun hall => ?_⟩
  obtain ⟨byte, ⟨c, hc, hbyte⟩, ⟨d, hd, hbyte'⟩⟩ := hall 0 0 0 .notANumber
  obtain rfl := Except.ok.inj (hclamped.symm.trans hc)
  obtain rfl := Except.ok.inj (hplain.symm.trans hd)
  have hdiffer : (⟨0, 0, 0, 255⟩ : Color).toNat % 256 ≠ (⟨0, 0, 0, 0⟩ : Color).toNat % 256 := by
    decide
  exact hdiffer (hbyte.trans hbyte'.symm)

end Color

end StyleValue
