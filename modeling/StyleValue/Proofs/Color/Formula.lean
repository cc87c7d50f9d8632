import StyleValue.Color.Channels
import StyleValue.Proofs.Numeric.Range
import StyleValue.Proofs.Numeric.Size

/-!
# Failures of color formulas

Conversions between color spaces fail by overflow only, and not even so as long as the integers
among the channels are small: no divisor is zero, and what is rounded was clamped before. After the
first matrix or transfer function all channels are doubles.
-/

set_option autoImplicit false

namespace StyleValue

variable {tame tolerated : Prop}

namespace Triple

variable {α β ε : Type} {failures : ε → Prop} {results : α → Prop}

def All (results : α → Prop) (t : Triple α) : Prop :=
  results t.first ∧ results t.second ∧ results t.third

instance [DecidablePred results] (t : Triple α) : Decidable (t.All results) :=
  inferInstanceAs (Decidable (_ ∧ _ ∧ _))

theorem All.mono {others : α → Prop} {t : Triple α} (h : t.All results)
    (himp : ∀ a, results a → others a) : t.All others :=
  ⟨himp _ h.1, himp _ h.2.1, himp _ h.2.2⟩

theorem All.of_double {t : Triple Number} (h : t.All (Number.Fits tame .double)) :
    t.All (Number.Fits tame (.bits 1010)) :=
  h.mono fun _ hx => hx.of_double _

theorem meets {x y z : Except ε α} (hx : Meets failures results x) (hy : Meets failures results y)
    (hz : Meets failures results z) :
    Meets failures (All results) (do return (⟨← x, ← y, ← z⟩ : Triple α)) :=
  hx.bind fun _ ha => hy.bind fun _ hb => hz.bind fun _ hc => Meets.pure ⟨ha, hb, hc⟩

theorem mapM_meets {finals : β → Prop} {faults : Fault → Prop} {f : α → Computed β} {t : Triple α}
    (ht : t.All results) (hf : ∀ a, results a → Meets faults finals (f a)) :
    Meets faults (All finals) (t.mapM f) :=
  meets (hf _ ht.1) (hf _ ht.2.1) (hf _ ht.2.2)

end Triple

section

variable (mantissa exponent : Nat) (negated : Bool) (k n : Nat)

theorem Sized.scientific : Sized tame tolerated .double
    (OfScientific.ofScientific mantissa negated exponent : Computed Number) := trivial

theorem Number.fits_nat (h : n < 2 ^ k) :
    Number.Fits tame (.bits k) (OfNat.ofNat n : Number) := fun _ => h

theorem Sized.nat (h : n < 2 ^ k := by decide) :
    Sized tame tolerated (.bits k) (OfNat.ofNat n : Computed Number) := fun _ => h

theorem Divisor.scientific
    (h : (OfScientific.ofScientific mantissa negated exponent : Number).isZero = false :=
      by decide +kernel) : Divisor tame tolerated .double
    (OfScientific.ofScientific mantissa negated exponent : Computed Number) := ⟨trivial, h⟩

theorem Divisor.nat (h : n < 2 ^ k := by decide)
    (hzero : (Number.integer n).isZero = false := by decide) :
    Divisor tame tolerated (.bits k) (OfNat.ofNat n : Computed Number) := ⟨fun _ => h, hzero⟩

end

def Triple.isRow (row : Triple Number) : Bool :=
  match row with
  | ⟨x, y, .double _⟩ => isEntry x && isEntry y
  | _ => false
where
  isEntry : Number → Bool
  | .integer n => n == 0 || n == 1
  | .double _ => true

namespace Matrix

def isRegular (m : Matrix) : Bool := m.first.isRow && m.second.isRow && m.third.isRow

theorem fits_of_isEntry {x : Number} (h : Triple.isRow.isEntry x) : x.Fits tame (.bits 1) := by
  cases x with
  | double x => trivial
  | integer n =>
    intro _
    simp only [Triple.isRow.isEntry, Bool.or_eq_true, beq_iff_eq] at h
    omega

theorem dot_sized {row column : Triple Number} (hrow : row.isRow)
    (hcolumn : column.All (Number.Fits tame (.bits 1010))) :
    Sized tame tolerated .double (dot row column) := by
  unfold Triple.isRow at hrow
  split at hrow
  · next x y z =>
    obtain ⟨hx, hy⟩ := Bool.and_eq_true_iff.1 hrow
    have hfirst : Sized tame tolerated (.bits 1011) (x.mul column.first) :=
      Number.mul_meets (fits_of_isEntry hx) hcolumn.1 (by decide) (by decide)
    have hsecond : Sized tame tolerated (.bits 1011) (y.mul column.second) :=
      Number.mul_meets (fits_of_isEntry hy) hcolumn.2.1 (by decide) (by decide)
    have hthird : Sized tame tolerated .double ((Number.double z).mul column.third) :=
      Number.mul_meets (Number.fits_double z .double) hcolumn.2.2 (by decide) (by decide)
    exact (hfirst.add hsecond).add hthird
  · cases hrow

theorem multiply_meets {m : Matrix} {v : Triple Number} (hm : m.isRegular)
    (hv : v.All (Number.Fits tame (.bits 1010))) :
    Meets (Overflow tame tolerated) (Triple.All (Number.Fits tame .double)) (m.multiply v) := by
  unfold isRegular at hm
  obtain ⟨hfirst, hthird⟩ := Bool.and_eq_true_iff.1 hm
  obtain ⟨hfirst, hsecond⟩ := Bool.and_eq_true_iff.1 hfirst
  exact Triple.meets (dot_sized hfirst hv) (dot_sized hsecond hv) (dot_sized hthird hv)

end Matrix

theorem Double.power_meets (base exponent : Double) :
    Meets (Overflow tame True) (fun _ => True) (Double.power base exponent) := by
  unfold Double.power
  split
  · trivial
  · trivial
  · split
    · trivial
    · dsimp only
      split
      · trivial
      · exact ⟨rfl, fun _ => trivial⟩

theorem Sized.power {x : Computed Number} {j : Size} (hx : Sized tame True j x)
    (exponent : Double) (hj : j.IsSmall := by decide) :
    Sized tame True .double (x.power exponent) :=
  hx.bind fun _ hn => (Number.toDouble_meets hn hj).bind fun d _ =>
    (Double.power_meets d exponent).bind fun _ _ => Meets.pure trivial

theorem Number.withSignOf_sized {x c : Number} {j k : Size} (hx : x.Fits tame j)
    (hc : c.Fits tame k) (hj : j.IsSmall) (hk : k.IsSmall) :
    Sized tame tolerated .double (x.withSignOf c) :=
  (Number.toDouble_meets hx hj).bind fun _ _ => (Number.toDouble_meets hc hk).bind fun _ _ =>
    Meets.pure trivial

namespace Transfer

/-- An overflow of the function that is extended is none of the extension. -/
theorem symmetric_sized {transfer : Computed Number → Computed Number} {c : Number} {k : Size}
    (hc : c.Fits tame (.bits 1010)) (h : Sized tame True k (transfer (.ok c.abs)))
    (hk : k.IsSmall := by decide) : Sized tame tolerated .double (symmetric transfer c) := by
  unfold symmetric
  split
  · trivial
  · cases hx : transfer (.ok c.abs) with
    | ok x =>
      rw [hx] at h
      exact Number.withSignOf_sized h hc hk (by decide)
    | error fault =>
      rw [hx] at h
      obtain rfl : fault = .overflow := h.1
      exact Number.withSignOf_sized (Number.fits_double _ .double) hc (by decide) (by decide)

variable {c : Number} (hc : c.Fits tame (.bits 1010))
include hc

theorem abs_sized : Sized tame tolerated (.bits 1010) (.ok c.abs) := Number.abs_fits hc

theorem srgb_sized :
    Sized tame tolerated .double (decodeSrgb c) ∧ Sized tame tolerated .double (encodeSrgb c) := by
  have hx {p : Prop} : Sized tame p (.bits 1010) (.ok c.abs) := abs_sized hc
  constructor
  · exact symmetric_sized hc (.ite (hx.le (.scientific ..)) (hx.div (.scientific ..))
      (((hx.add (.scientific ..)).div (.scientific ..)).power _))
  · exact symmetric_sized hc (.ite (Sized.lt (.scientific ..) hx)
      ((Sized.mul (.scientific ..) (hx.power _)).sub (.scientific ..))
      (Sized.mul (.scientific ..) hx))

theorem a98_sized :
    Sized tame tolerated .double (decodeA98 c) ∧ Sized tame tolerated .double (encodeA98 c) :=
  ⟨symmetric_sized hc ((abs_sized hc).power _), symmetric_sized hc ((abs_sized hc).power _)⟩

theorem proPhoto_sized : Sized tame tolerated .double (decodeProPhoto c) ∧
    Sized tame tolerated .double (encodeProPhoto c) := by
  have hx {p : Prop} : Sized tame p (.bits 1010) (.ok c.abs) := abs_sized hc
  constructor
  · exact symmetric_sized hc (.ite (hx.lt ((Sized.nat 10 16).div (.nat 10 512)))
      (hx.div (.nat 10 16)) (hx.power _))
  · exact symmetric_sized hc (.ite (Sized.lt ((Sized.nat 10 1).div (.nat 10 512)) hx)
      ((hx.power _).of_double _) (hx.mul (.nat 10 16)))

theorem rec2020_sized : Sized tame tolerated .double (decodeRec2020 c) ∧
    Sized tame tolerated .double (encodeRec2020 c) := by
  have hx {p : Prop} : Sized tame p (.bits 1010) (.ok c.abs) := abs_sized hc
  constructor
  · exact symmetric_sized hc (.ite (hx.lt (Sized.mul (.scientific ..) (.scientific ..)))
      (hx.div (.scientific ..))
      ((((hx.add (.scientific ..)).sub (.nat 10 1)).div (.scientific ..)).power _))
  · exact symmetric_sized hc (.ite (Sized.le (.scientific ..) hx)
      ((Sized.mul (.scientific ..) (hx.power _)).sub (Sized.sub (.scientific ..) (.nat 10 1)))
      (Sized.mul (.scientific ..) hx))

end Transfer

structure RgbSpace.Regular (s : RgbSpace) : Prop where
  decode : ∀ {tame tolerated : Prop} {c : Number}, c.Fits tame (.bits 1010) →
    Sized tame tolerated .double (s.decode c)
  encode : ∀ {tame tolerated : Prop} {c : Number}, c.Fits tame (.bits 1010) →
    Sized tame tolerated .double (s.encode c)
  toXyz : s.toXyz.isRegular
  fromXyz : s.fromXyz.isRegular

namespace RgbSpace

open Transfer

theorem srgb_regular : srgb.Regular :=
  ⟨fun h => (srgb_sized h).1, fun h => (srgb_sized h).2, rfl, rfl⟩

theorem displayP3_regular : displayP3.Regular :=
  ⟨fun h => (srgb_sized h).1, fun h => (srgb_sized h).2, rfl, rfl⟩

theorem a98_regular : a98.Regular :=
  ⟨fun h => (a98_sized h).1, fun h => (a98_sized h).2, rfl, rfl⟩

theorem proPhoto_regular : proPhoto.Regular :=
  ⟨fun h => (proPhoto_sized h).1, fun h => (proPhoto_sized h).2, rfl, rfl⟩

theorem rec2020_regular : rec2020.Regular :=
  ⟨fun h => (rec2020_sized h).1, fun h => (rec2020_sized h).2, rfl, rfl⟩

theorem Regular.channelsToXyz_meets {s : RgbSpace} {channels : Triple Number} (hs : s.Regular)
    (h : channels.All (Number.Fits tame (.bits 1010))) :
    Meets (Overflow tame tolerated) (Triple.All (Number.Fits tame .double))
      (s.channelsToXyz channels) := by
  unfold channelsToXyz
  apply (Triple.mapM_meets h fun _ hx => hs.decode hx).bind
  intro light hlight
  apply (Matrix.multiply_meets hs.toXyz hlight.of_double).bind
  intro xyz hxyz
  split
  · exact hxyz
  · exact Matrix.multiply_meets rfl hxyz.of_double

theorem Regular.channelsOfXyz_meets {s : RgbSpace} {xyz : Triple Number} (hs : s.Regular)
    (h : xyz.All (Number.Fits tame .double)) :
    Meets (Overflow tame tolerated) (Triple.All (Number.Fits tame .double))
      (s.channelsOfXyz xyz) := by
  have hencode (adapted : Triple Number) (hadapted : adapted.All (Number.Fits tame .double)) :
      Meets (Overflow tame tolerated) (Triple.All (Number.Fits tame .double))
        (do (← s.fromXyz.multiply adapted).mapM s.encode) := by
    apply (Matrix.multiply_meets hs.fromXyz hadapted.of_double).bind
    intro light hlight
    exact Triple.mapM_meets hlight.of_double fun _ hx => hs.encode hx
  unfold channelsOfXyz
  dsimp only
  split
  · exact hencode xyz h
  · apply Meets.bind _ hencode
    exact Matrix.multiply_meets rfl h.of_double

end RgbSpace

namespace Color

theorem channelByte_meets {c : Number} (hc : c.Fits tame (.bits 1010)) :
    Meets (Overflow tame tolerated) (fun _ => True) (channelByte c) := by
  unfold channelByte
  apply (Number.isNotANumber_meets hc (by decide)).bind
  intro undefined _
  split
  · trivial
  · obtain ⟨n, hn⟩ := Number.truncate_within (Number.clamp_within c 255)
    show Meets _ _ (do return byteOf (← (c.clamp 0 (.integer (255 : Nat))).truncate))
    rw [hn]
    trivial

theorem alphaByte_meets {alpha : Number} (h : alpha.Fits tame (.bits 1010)) :
    Meets (Overflow tame tolerated) (fun _ => True) (alphaByte alpha) := by
  have hpack (clamped : Number) (hclamped : clamped.Within 1) :
      Meets (Overflow tame tolerated) (fun _ => True)
        (do return byteOf (← (← clamped.mul 255).roundHalfUp)) := by
    obtain ⟨scaled, hscaled, hwithin⟩ := Number.mul_within hclamped
    obtain ⟨n, hn, -⟩ := Number.roundHalfUp_within hwithin le_rfl
    rw [hscaled]
    show Meets _ _ (do return byteOf (← scaled.roundHalfUp))
    rw [hn]
    trivial
  unfold alphaByte
  apply (Number.isNotANumber_meets h (by decide)).bind
  intro undefined _
  apply hpack
  split
  · show |((0 : Int) : ℚ)| ≤ 1
    norm_num
  · exact_mod_cast Number.clamp_within alpha 1

theorem pack_meets {r g b alpha : Number} (hr : r.Fits tame (.bits 1010))
    (hg : g.Fits tame (.bits 1010)) (hb : b.Fits tame (.bits 1010))
    (halpha : alpha.Fits tame (.bits 1010)) :
    Meets (Overflow tame tolerated) (fun _ => True) (pack r g b alpha) :=
  (channelByte_meets hr).bind fun _ _ => (channelByte_meets hg).bind fun _ _ =>
    (channelByte_meets hb).bind fun _ _ => (alphaByte_meets halpha).bind fun _ _ =>
      Meets.pure trivial

/-- A clamped number that is rounded is a small integer. -/
theorem rounded_sized (x : Number) : Sized tame tolerated (.bits 13)
    (do return .integer (← (x.clamp 0 255).roundHalfUp)) := by
  obtain ⟨n, hn, hbits⟩ := Number.roundHalfUp_within (Number.clamp_within x 255) (by norm_num)
  show Sized _ _ _ (do return .integer (← (x.clamp 0 (.integer (255 : Nat))).roundHalfUp))
  rw [hn]
  exact fun _ => hbits

theorem unitByte_sized {c : Number} (hc : c.Fits tame (.bits 1010)) :
    Sized tame tolerated (.bits 13) (unitByte c) := by
  unfold unitByte
  apply (Number.isNotANumber_meets hc (by decide)).bind
  intro undefined _
  split
  · exact fun _ => by decide
  · have hscaled : Sized tame tolerated (.bits 1018) (c.mul 255) :=
      Number.mul_meets hc (Number.fits_nat 8 255 (by decide)) (by decide) (by decide)
    apply hscaled.bind
    intro scaled _
    exact rounded_sized scaled

variable {c : Coordinates} (hchannels : c.channels.All (Number.Fits tame (.bits 1010)))
  (hopacity : c.opacity.Fits tame (.bits 1010))
include hchannels hopacity

theorem packSrgb_meets : Meets (Overflow tame tolerated) (fun _ => True) (packSrgb c) := by
  apply (Triple.mapM_meets hchannels fun _ hx => unitByte_sized hx).bind
  intro bytes hbytes
  have hbytes' := hbytes.mono fun _ h => h.mono (by decide : 13 ≤ 1010)
  exact pack_meets hbytes'.1 hbytes'.2.1 hbytes'.2.2
    (Number.clamp_fits hopacity ((Number.fits_nat 1 0 (by decide)).mono (by decide))
      ((Number.fits_nat 1 1 (by decide)).mono (by decide)))

theorem packLinear_meets : Meets (Overflow tame tolerated) (fun _ => True) (packLinear c) := by
  apply (Triple.mapM_meets hchannels fun _ hx => (Transfer.srgb_sized hx).2).bind
  intro encoded hencoded
  exact packSrgb_meets hencoded.of_double hopacity

theorem packXyz_meets : Meets (Overflow tame tolerated) (fun _ => True) (packXyz c) := by
  apply (Matrix.multiply_meets RgbSpace.srgb_regular.fromXyz hchannels).bind
  intro light hlight
  exact packLinear_meets hlight.of_double hopacity

end Color

structure Coordinates.Fits (tame : Prop) (channel alpha : Size) (c : Coordinates) : Prop where
  channels : c.channels.All (Number.Fits tame channel)
  opacity : c.opacity.Fits tame alpha

theorem Coordinates.Fits.convert_meets {c : Coordinates} {j k alpha : Size}
    {f : Triple Number → Computed (Triple Number)} (h : c.Fits tame j alpha)
    (hf : ∀ channels : Triple Number, channels.All (Number.Fits tame j) →
      Meets (Overflow tame tolerated) (Triple.All (Number.Fits tame k)) (f channels)) :
    Meets (Overflow tame tolerated) (Coordinates.Fits tame k alpha) (c.convert f) :=
  (hf c.channels h.channels).bind fun _ hchannels => Meets.pure ⟨hchannels, h.opacity⟩

namespace ColorSpace

theorem channelsToXyz_meets (s : ColorSpace) {channels : Triple Number}
    (h : channels.All (Number.Fits tame (.bits 1010))) :
    Meets (Overflow tame tolerated) (Triple.All (Number.Fits tame (.bits 1010)))
      (s.channelsToXyz channels) := by
  cases s with
  | xyzD65 => exact h
  | xyzD50 | srgbLinear => exact (Matrix.multiply_meets rfl h).weaken fun _ h => h.of_double
  | srgb => exact (RgbSpace.srgb_regular.channelsToXyz_meets h).weaken fun _ h => h.of_double
  | displayP3 =>
    exact (RgbSpace.displayP3_regular.channelsToXyz_meets h).weaken fun _ h => h.of_double
  | a98 => exact (RgbSpace.a98_regular.channelsToXyz_meets h).weaken fun _ h => h.of_double
  | proPhoto =>
    exact (RgbSpace.proPhoto_regular.channelsToXyz_meets h).weaken fun _ h => h.of_double
  | rec2020 =>
    exact (RgbSpace.rec2020_regular.channelsToXyz_meets h).weaken fun _ h => h.of_double

theorem channelsOfXyz_meets (s : ColorSpace) {xyz : Triple Number}
    (h : xyz.All (Number.Fits tame .double)) :
    Meets (Overflow tame tolerated) (Triple.All (Number.Fits tame .double))
      (s.channelsOfXyz xyz) := by
  cases s with
  | xyzD65 => exact h
  | xyzD50 | srgbLinear => exact Matrix.multiply_meets rfl h.of_double
  | srgb => exact RgbSpace.srgb_regular.channelsOfXyz_meets h
  | displayP3 => exact RgbSpace.displayP3_regular.channelsOfXyz_meets h
  | a98 => exact RgbSpace.a98_regular.channelsOfXyz_meets h
  | proPhoto => exact RgbSpace.proPhoto_regular.channelsOfXyz_meets h
  | rec2020 => exact RgbSpace.rec2020_regular.channelsOfXyz_meets h

theorem pack_meets (s : ColorSpace) {c : Coordinates}
    (h : c.Fits tame (.bits 1010) (.bits 1010)) :
    Meets (Overflow tame tolerated) (fun _ => True) (s.pack c) := by
  have hxyz : Meets (Overflow tame tolerated) (fun _ => True) (do Color.packXyz (← s.toXyz c)) :=
    (h.convert_meets fun _ => s.channelsToXyz_meets).bind fun _ hc =>
      Color.packXyz_meets hc.channels hc.opacity
  cases s with
  | srgb => exact Color.packSrgb_meets h.channels h.opacity
  | srgbLinear => exact Color.packLinear_meets h.channels h.opacity
  | displayP3 | a98 | proPhoto | rec2020 | xyzD65 | xyzD50 => exact hxyz

end ColorSpace

theorem ColorSpace.srgb_toXyz_meets {c : Coordinates} {alpha : Size}
    (h : c.Fits tame (.bits 1010) alpha) :
    Meets (Overflow tame tolerated) (Coordinates.Fits tame .double alpha)
      (ColorSpace.srgb.toXyz c) :=
  h.convert_meets fun _ => RgbSpace.srgb_regular.channelsToXyz_meets

namespace Hsl

theorem channel_sized {low high hue : Computed Number} (hlow : Sized tame tolerated .double low)
    (hhigh : Sized tame tolerated .double high) (hhue : Sized tame tolerated .double hue) :
    Sized tame tolerated .double (channel low high hue) := by
  have hturn : Sized tame tolerated .double (hue % 1) := hhue.mod (.nat 1 1)
  unfold channel
  exact .ite (hturn.lt ((Sized.nat 1 1).div (.nat 3 6)))
    ((((hhigh.sub hlow).mul hturn).mul (.nat 3 6)).add hlow)
    (.ite (hturn.lt ((Sized.nat 1 1).div (.nat 2 2))) hhigh
      (.ite (hturn.lt ((Sized.nat 2 2).div (.nat 2 3)))
        ((((hhigh.sub hlow).mul (((Sized.nat 2 2).div (.nat 2 3)).sub hturn)).mul (.nat 3 6)).add
          hlow)
        hlow))

theorem bounds_meets {saturation lightness : Computed Number}
    (hs : Sized tame tolerated .double saturation) (hl : Sized tame tolerated .double lightness) :
    Meets (Overflow tame tolerated)
      (fun bounds => bounds.1.Fits tame .double ∧ bounds.2.Fits tame .double)
      (bounds saturation lightness) := by
  unfold bounds
  apply (hl.le ((Sized.nat 1 1).div (.nat 2 2))).bind
  intro dark _
  have hhigh : Sized tame tolerated .double (if dark = true then lightness * (saturation + 1)
      else lightness + saturation - lightness * saturation) := by
    split
    · exact hl.mul (hs.add (.nat 1 1))
    · exact (hl.add hs).sub (hl.mul hs)
  apply ((hl.mul (.nat 2 2)).sub hhigh).bind
  intro low hlow
  apply hhigh.bind
  intro high hhigh
  exact Meets.pure ⟨hlow, hhigh⟩

theorem channels_meets {hue low high : Number} (hhue : hue.Fits tame (.bits 1010))
    (hlow : low.Fits tame .double) (hhigh : high.Fits tame .double) :
    Meets (Overflow tame tolerated) (Triple.All (Number.Fits tame .double))
      (channels hue low high) := by
  have hturn : Sized tame tolerated .double ((.ok hue : Computed Number) / 360) :=
    Sized.div hhue (.nat 9 360)
  have hthird : Sized tame tolerated .double (1 / 3 : Computed Number) :=
    (Sized.nat 1 1).div (.nat 2 3)
  exact Triple.meets (channel_sized hlow hhigh (hturn.add hthird))
    (channel_sized hlow hhigh hturn) (channel_sized hlow hhigh (hturn.sub hthird))

theorem toRgb_meets {hsl : Triple Number} (hhue : hsl.first.Fits tame (.bits 1010))
    (hs : hsl.second.Fits tame .double) (hl : hsl.third.Fits tame .double) :
    Meets (Overflow tame tolerated) (Triple.All (Number.Fits tame .double)) (toRgb hsl) := by
  unfold toRgb
  split
  · exact Meets.pure ⟨hl, hl, hl⟩
  · apply (bounds_meets (Sized.of_fits hs) (Sized.of_fits hl)).bind
    intro bounds hbounds
    exact channels_meets hhue hbounds.1 hbounds.2

end Hsl

namespace Lab

theorem kappa_divisor : Divisor tame tolerated .double kappa := by
  have hvalue : kappa.toOption.map Number.isZero = some false := by decide +kernel
  have hsized : Sized tame tolerated .double kappa := (Sized.nat 15 24389).div (.nat 5 27)
  cases hkappa : kappa with
  | ok d =>
    rw [hkappa] at hvalue hsized
    exact ⟨hsized, Option.some.inj hvalue⟩
  | error fault =>
    rw [hkappa] at hvalue
    cases hvalue

theorem light_sized {f : Computed Number} (hf : Sized tame tolerated .double f) :
    Sized tame tolerated .double (light f) := by
  unfold light
  exact .ite (((Sized.nat 5 24).div (.nat 7 116)).lt hf) ((hf.mul hf).mul hf)
    (((Sized.mul (.nat 7 116) hf).sub (.nat 5 16)).div kappa_divisor)

theorem toXyzD50_meets {lab : Triple Number} (h : lab.All (Number.Fits tame (.bits 1010))) :
    Meets (Overflow tame tolerated) (Triple.All (Number.Fits tame .double)) (toXyzD50 lab) := by
  have hl : Sized tame tolerated (.bits 1010) (.ok lab.first) := h.1
  have hfy : Sized tame tolerated .double ((.ok lab.first + 16) / 116) :=
    (hl.add (.nat 5 16)).div (.nat 7 116)
  have hfx : Sized tame tolerated .double (.ok lab.second / 500 + (.ok lab.first + 16) / 116) :=
    ((Sized.of_fits h.2.1).div (.nat 9 500)).add hfy
  have hfz : Sized tame tolerated .double ((.ok lab.first + 16) / 116 - .ok lab.third / 200) :=
    hfy.sub ((Sized.of_fits h.2.2).div (.nat 8 200))
  have hy := Sized.ite ((Sized.nat 4 8).lt hl) ((hfy.mul hfy).mul hfy) (hl.div kappa_divisor)
  exact Triple.meets
    ((light_sized hfx).mul (Sized.div (.scientific ..) (.scientific ..)))
    (hy.mul (.scientific ..))
    ((light_sized hfz).mul
      ((((Sized.nat 1 1).sub (.scientific ..)).sub (.scientific ..)).div (.scientific ..)))

theorem toXyz_meets {c : Coordinates} {alpha : Size} (h : c.Fits tame (.bits 1010) alpha) :
    Meets (Overflow tame tolerated) (Coordinates.Fits tame .double alpha) (toXyz c) :=
  h.convert_meets fun _ hlab => (toXyzD50_meets hlab).bind fun _ hxyz =>
    Matrix.multiply_meets rfl hxyz.of_double

end Lab

namespace Lch

theorem radians_meets {hue : Number} (h : hue.Fits tame (.bits 1010)) :
    Meets (Overflow tame tolerated) (fun _ => True) (radians hue) := by
  unfold radians
  apply (Number.isFinite_meets h (by decide)).bind
  intro finite _
  split
  · have hwithin : Sized tame tolerated (.bits 1011) (hue.mod 360) :=
      Number.mod_meets h (Number.fits_nat 9 360 (by decide)) (by decide) (by decide) rfl
    apply hwithin.bind
    intro within hwithin
    exact (Number.toDouble_meets hwithin (by decide)).bind fun _ _ => Meets.pure trivial
  · exact (Number.toDouble_meets (Number.fits_nat 1 0 (by decide)) (by decide)).bind fun _ _ =>
      Meets.pure trivial

theorem toLab_meets {c : Coordinates} {alpha : Size} (h : c.Fits tame (.bits 1010) alpha) :
    Meets (Overflow tame tolerated) (Coordinates.Fits tame (.bits 1010) alpha) (toLab c) := by
  have hchroma : (c.channels.second.larger 0).Fits tame (.bits 1010) :=
    Number.larger_fits h.channels.2.1 ((Number.fits_nat 1 0 (by decide)).mono (by decide))
  have hpart (d : Double) : Sized tame tolerated (.bits 1010)
      ((c.channels.second.larger 0).mul d) :=
    (Number.mul_meets hchroma (Number.fits_double d .double) (by decide) (by decide)).weaken
      fun _ h => h.of_double _
  unfold toLab
  apply (radians_meets h.channels.2.2).bind
  intro angle _
  apply (hpart angle.cosine).bind
  intro a ha
  apply (hpart angle.sine).bind
  intro b hb
  exact Meets.pure ⟨⟨h.channels.1, ha, hb⟩, h.opacity⟩

theorem toXyz_meets {c : Coordinates} {alpha : Size} (h : c.Fits tame (.bits 1010) alpha) :
    Meets (Overflow tame tolerated) (Coordinates.Fits tame .double alpha) (toXyz c) :=
  (toLab_meets h).bind fun _ hlab => Lab.toXyz_meets hlab

end Lch

theorem Oklab.toXyz_meets {c : Coordinates} {alpha : Size} (h : c.Fits tame (.bits 1010) alpha) :
    Meets (Overflow tame tolerated) (Coordinates.Fits tame .double alpha) (Oklab.toXyz c) := by
  apply h.convert_meets
  intro lab hlab
  apply (Matrix.multiply_meets rfl hlab).bind
  intro lms hlms
  have hcube (x : Number) (hx : x.Fits tame .double) :
      Sized tame tolerated .double (Computed.cube (.ok x)) :=
    (Sized.mul (Sized.of_fits hx) (Sized.of_fits hx)).mul (Sized.of_fits hx)
  apply (Triple.mapM_meets hlms hcube).bind
  intro light hlight
  exact Matrix.multiply_meets rfl hlight.of_double

theorem Oklch.toXyz_meets {c : Coordinates} {alpha : Size} (h : c.Fits tame (.bits 1010) alpha) :
    Meets (Overflow tame tolerated) (Coordinates.Fits tame .double alpha) (Oklch.toXyz c) :=
  (Lch.toLab_meets h).bind fun _ hlab => Oklab.toXyz_meets hlab

end StyleValue
