import StyleValue.Proofs.Color.Alpha
import StyleValue.Proofs.Color.Bytes

/-!
# Relative colors that keep the channels of their origin

A color that is relative to an origin and has its red, green and blue, in sRGB, is the origin. For
origins that are packed by way of XYZ the two are computed alike. Of the channels of other functions
the fractions are dropped, while those of the relative color are rounded, after a detour by XYZ; so
a byte is the same, or one more.
-/

set_option autoImplicit false

namespace StyleValue

open ComponentValue

theorem Outcome.ofParsed_bind {α β : Type} (x : Parsed α) (f : α → Parsed β) :
    Outcome.ofParsed (x >>= f) = Outcome.ofParsed x >>= fun a => Outcome.ofParsed (f a) := by
  cases x with
  | ok a => rfl
  | error failure => rfl

theorem Computed.parsed_bind {α β : Type} (x : Computed α) (f : α → Computed β) :
    (x >>= f).parsed = x.parsed >>= fun a => (f a).parsed := by
  cases x with
  | ok a => rfl
  | error fault => rfl

theorem Computed.eq_ok_of_parsed {α : Type} {x : Computed α} {a : α} (h : x.parsed = .ok a) :
    x = .ok a := by
  cases x with
  | ok b => exact congrArg _ (Except.ok.inj h)
  | error fault => cases h

theorem ComponentValue.exists_ident {v : ComponentValue} {name : String} (h : v.isKeyword name) :
    ∃ written source, v = .token ⟨.ident written, source⟩ ∧ lowercase written = name := by
  unfold isKeyword keyword? at h
  split at h
  · next written source => exact ⟨written, source, rfl, by simpa using h⟩
  · cases h

namespace Color

def ofXyz (xyz : Coordinates) : Computed Color := do
  let c ← ColorSpace.srgb.ofXyz xyz
  packSrgb ⟨c.channels, some c.opacity⟩

theorem ofXyz_eq (xyz : Coordinates) : ofXyz xyz = packXyz xyz := by
  unfold ofXyz packXyz packLinear ColorSpace.ofXyz Coordinates.convert
  show ((RgbSpace.srgb.fromXyz.multiply xyz.channels >>= fun light =>
      light.mapM Transfer.encodeSrgb) >>= fun channels =>
      pure (⟨channels, some xyz.opacity⟩ : Coordinates)) >>= (fun c =>
      packSrgb ⟨c.channels, some c.opacity⟩) =
    RgbSpace.srgb.fromXyz.multiply xyz.channels >>= fun light =>
      light.mapM Transfer.encodeSrgb >>= fun channels => packSrgb ⟨channels, xyz.alpha⟩
  cases RgbSpace.srgb.fromXyz.multiply xyz.channels with
  | error fault => rfl
  | ok light =>
    show (light.mapM Transfer.encodeSrgb >>= fun channels =>
        pure (⟨channels, some xyz.opacity⟩ : Coordinates)) >>= (fun c =>
        packSrgb ⟨c.channels, some c.opacity⟩) =
      light.mapM Transfer.encodeSrgb >>= fun channels => packSrgb ⟨channels, xyz.alpha⟩
    cases light.mapM Transfer.encodeSrgb <;> rfl

theorem splitChannels_idents {red green blue s t u : String} (hred : lowercase red ≠ "from") :
    splitChannels [.token ⟨.ident red, s⟩, .token ⟨.ident green, t⟩, .token ⟨.ident blue, u⟩] =
      .ok (⟨.token ⟨.ident red, s⟩, .token ⟨.ident green, t⟩, .token ⟨.ident blue, u⟩⟩, none) := by
  have hkeyword : (ComponentValue.token ⟨.ident red, s⟩).isKeyword "from" = false := by
    simpa [isKeyword, keyword?] using hred
  have hsplit : splitAlpha 3
      [.token ⟨.ident red, s⟩, .token ⟨.ident green, t⟩, .token ⟨.ident blue, u⟩] =
      .ok ⟨[.token ⟨.ident red, s⟩, .token ⟨.ident green, t⟩, .token ⟨.ident blue, u⟩], none⟩ := by
    show (if (ComponentValue.token ⟨.ident red, s⟩).isKeyword "from" then _ else _) = _
    rw [hkeyword]
    rfl
  rw [splitChannels, hsplit]
  rfl

theorem relativeChannel_ident {bindings : Bindings} {name source : String} {n : Number}
    (h : bindings.lookup (lowercase name) = some n) :
    relativeChannel bindings (.token ⟨.ident name, source⟩) = .ok n := by
  have hlookup : ((ComponentValue.token ⟨.ident name, source⟩).keyword?.bind fun name =>
      bindings.lookup name) = some n := h
  unfold relativeChannel
  dsimp only
  rw [hlookup]

theorem ofRelativeChannels_names {r g b : ComponentValue} (hr : r.isKeyword "r")
    (hg : g.isKeyword "g") (hb : b.isKeyword "b") (c : Coordinates) :
    ofRelativeChannels .srgb c [r, g, b] = (packSrgb ⟨c.channels, some c.opacity⟩).parsed := by
  obtain ⟨red, _, rfl, hred⟩ := exists_ident hr
  obtain ⟨green, _, rfl, hgreen⟩ := exists_ident hg
  obtain ⟨blue, _, rfl, hblue⟩ := exists_ident hb
  have hfrom : lowercase red ≠ "from" := by
    rw [hred]
    decide
  unfold ofRelativeChannels
  rw [splitChannels_idents hfrom]
  let bindings : Bindings := [("r", c.channels.first), ("g", c.channels.second),
    ("b", c.channels.third), ("alpha", c.opacity)]
  show (do
    let x ← relativeChannel bindings (.token ⟨.ident red, _⟩)
    let y ← relativeChannel bindings (.token ⟨.ident green, _⟩)
    let z ← relativeChannel bindings (.token ⟨.ident blue, _⟩)
    (packSrgb ⟨⟨x, y, z⟩, some c.opacity⟩).parsed) = _
  rw [relativeChannel_ident (n := c.channels.first) (by rw [hred]; rfl),
    relativeChannel_ident (n := c.channels.second) (by rw [hgreen]; rfl),
    relativeChannel_ident (n := c.channels.third) (by rw [hblue]; rfl)]
  rfl

theorem relative_names {r g b : ComponentValue} (hr : r.isKeyword "r")
    (hg : g.isKeyword "g") (hb : b.isKeyword "b") (origin : ComponentValue) :
    relative .srgb origin [r, g, b] =
      originToXyz origin >>= fun xyz => Outcome.ofParsed (ofXyz xyz).parsed := by
  have hchannels (xyz : Coordinates) : ((ColorSpace.srgb.ofXyz xyz).parsed >>= fun c =>
      ofRelativeChannels .srgb c [r, g, b]) = (ofXyz xyz).parsed := by
    rw [ofXyz, Computed.parsed_bind]
    congr 1
    funext c
    exact ofRelativeChannels_names hr hg hb c
  show (originToXyz origin >>= fun xyz => Outcome.ofParsed
    ((ColorSpace.srgb.ofXyz xyz).parsed >>= fun c => ofRelativeChannels .srgb c [r, g, b])) = _
  congr 1
  funext xyz
  rw [hchannels]

theorem ofValue_relative {name openSource closeSource : String} {values : List ComponentValue}
    {keyword origin space r g b : ComponentValue} (hname : lowercase name = "color")
    (hvalues : substantial values = [keyword, origin, space, r, g, b])
    (hkeyword : keyword.isKeyword "from") (hspace : space.isKeyword "srgb")
    (hr : r.isKeyword "r") (hg : g.isKeyword "g") (hb : b.isKeyword "b") :
    ofValue (.function name openSource values closeSource) =
      originToXyz origin >>= fun xyz => Outcome.ofParsed (ofXyz xyz).parsed := by
  have hsrgb : spaceOf space = .ok .srgb := by
    obtain ⟨written, source, rfl, hwritten⟩ := exists_ident hspace
    have hkeyword : (ComponentValue.token ⟨.ident written, source⟩).keyword? = some "srgb" :=
      congrArg some hwritten
    rw [spaceOf, hkeyword]
    rfl
  rw [ofValue_color hname, ofColorFunction_relative hvalues hkeyword, hsrgb]
  exact (pure_bind ColorSpace.srgb _).trans (relative_names hr hg hb origin)

def RoundsChannel (x : Number) (rounded : UInt8) : Prop :=
  ∃ byte, channelByte x = .ok byte ∧ Rounds x.value byte rounded

theorem exists_ofXyz {c : Coordinates} {x : Triple Number} {alpha : UInt8}
    (hfirst : Scaled x.first c.channels.first) (hsecond : Scaled x.second c.channels.second)
    (hthird : Scaled x.third c.channels.third)
    (halpha : alphaByte (c.opacity.clamp 0 1) = .ok alpha) :
    ∃ color, ColorSpace.srgb.toXyz c >>= ofXyz = .ok color ∧ color.alpha = alpha ∧
      RoundsChannel x.first color.red ∧ RoundsChannel x.second color.green ∧
      RoundsChannel x.third color.blue := by
  obtain ⟨xyz, w, hxyz, hw, hnear⟩ :=
    RgbSpace.channelsOfXyz_near ⟨hfirst.unit, hsecond.unit, hthird.unit⟩
  obtain ⟨red, n₁, red', hred, hn₁, hred', hrounds₁⟩ := hfirst.exists_bytes hnear.first
  obtain ⟨green, n₂, green', hgreen, hn₂, hgreen', hrounds₂⟩ := hsecond.exists_bytes hnear.second
  obtain ⟨blue, n₃, blue', hblue, hn₃, hblue', hrounds₃⟩ := hthird.exists_bytes hnear.third
  refine ⟨⟨red', green', blue', alpha⟩, ?_, rfl, ⟨red, hred, hrounds₁⟩, ⟨green, hgreen, hrounds₂⟩,
    ⟨blue, hblue, hrounds₃⟩⟩
  have htoXyz : ColorSpace.srgb.toXyz c = .ok ⟨xyz, some c.opacity⟩ := by
    show (do return (⟨← RgbSpace.srgb.channelsToXyz c.channels, some c.opacity⟩ : Coordinates)) = _
    rw [hxyz]
    rfl
  have hofXyz : ColorSpace.srgb.ofXyz ⟨xyz, some c.opacity⟩ = .ok ⟨w, some c.opacity⟩ := by
    show (do return (⟨← RgbSpace.srgb.channelsOfXyz xyz, some c.opacity⟩ : Coordinates)) = _
    rw [hw]
    rfl
  have hpack : packSrgb ⟨w, some c.opacity⟩ = .ok ⟨red', green', blue', alpha⟩ := by
    show (do
      let bytes ← w.mapM unitByte
      pack bytes.first bytes.second bytes.third (c.opacity.clamp 0 1)) = _
    rw [Triple.mapM_eq_ok hn₁ hn₂ hn₃]
    show pack n₁ n₂ n₃ (c.opacity.clamp 0 1) = _
    rw [pack, hred', hgreen', hblue', halpha]
    rfl
  rw [htoXyz]
  show (do
    let c ← ColorSpace.srgb.ofXyz ⟨xyz, some c.opacity⟩
    packSrgb ⟨c.channels, some c.opacity⟩) = _
  rw [hofXyz]
  exact hpack

theorem exists_ofXyz_byte (byte : UInt8) :
    ∃ u, (Number.integer byte.toNat).div 255 = .ok u ∧ Scaled (.integer byte.toNat) u := by
  apply exists_scaled_of_div
  have hbyte := byte.toNat_lt
  show |((byte.toNat : Int) : ℚ)| ≤ 1000000
  rw [Int.cast_natCast, Nat.abs_cast]
  exact_mod_cast (by omega : byte.toNat ≤ 1000000)

theorem eq_of_roundsChannel_byte {byte rounded : UInt8}
    (h : RoundsChannel (.integer byte.toNat) rounded) : rounded = byte := by
  obtain ⟨same, -, hrounds⟩ := h
  have hbyte := byte.toNat_lt
  have hlimited : limited (Number.integer byte.toNat).value = (byte.toNat : Int) := by
    show limited ((byte.toNat : Int) : ℚ) = _
    rw [Int.cast_natCast]
    exact limited_natCast (by omega)
  have hfloor := hrounds.floor
  rw [hlimited, Int.floor_intCast] at hfloor
  rw [hrounds.eq_of_fract_lt (by rw [hlimited, Int.fract_intCast]; norm_num)]
  exact UInt8.toNat_inj.1 (by omega)

theorem toXyz_ofXyz (c : Color) : c.toXyz >>= ofXyz = .ok c := by
  obtain ⟨red, hred, hscaled₁⟩ := exists_ofXyz_byte c.red
  obtain ⟨green, hgreen, hscaled₂⟩ := exists_ofXyz_byte c.green
  obtain ⟨blue, hblue, hscaled₃⟩ := exists_ofXyz_byte c.blue
  obtain ⟨d, hd, halpha, hrounds₁, hrounds₂, hrounds₃⟩ := exists_ofXyz
    (c := ⟨⟨red, green, blue⟩, some (.double (unpackAlpha c.alpha))⟩)
    (x := ⟨.integer c.red.toNat, .integer c.green.toNat, .integer c.blue.toNat⟩)
    hscaled₁ hscaled₂ hscaled₃ (alphaByte_clamp_unpackAlpha c.alpha)
  have hsame : d = c := by
    cases c
    cases d
    rw [Color.mk.injEq]
    exact ⟨eq_of_roundsChannel_byte hrounds₁, eq_of_roundsChannel_byte hrounds₂,
      eq_of_roundsChannel_byte hrounds₃, halpha⟩
  unfold toXyz
  dsimp only
  rw [hred, hgreen, hblue]
  exact hd.trans (congrArg _ hsame)

def PacksByXyz : ComponentValue → Prop
  | .function name _ _ _ =>
    ∃ f, ChannelFunction.ofName? (lowercase name) = some f ∧ f ≠ .rgb ∧ f ≠ .hsl
  | _ => True

section

variable {f : ChannelFunction} {name openSource closeSource : String}
  {values : List ComponentValue} (hname : ChannelFunction.ofName? (lowercase name) = some f)
include hname

theorem ofValue_function : ofValue (.function name openSource values closeSource) =
    Outcome.ofParsed (f.extract values >>= fun c => (f.pack c).parsed) := by
  rw [ofValue, hname]
  rfl

theorem originToXyz_function : (originToXyz (.function name openSource values closeSource) >>=
    fun xyz => Outcome.ofParsed (ofXyz xyz).parsed) =
      Outcome.ofParsed (f.extract values >>= fun c => (f.toXyz c >>= ofXyz).parsed) := by
  simp only [originToXyz, hname, Computed.parsed_bind]
  show (Outcome.ofParsed (f.extract values >>= fun c => (f.toXyz c).parsed) >>= fun xyz =>
    Outcome.ofParsed (ofXyz xyz).parsed) = _
  rw [← Outcome.ofParsed_bind, bind_assoc]

end

/-- An origin that is packed by way of XYZ is the same color by way of its channels. -/
theorem originToXyz_ofXyz {origin : ComponentValue} (h : PacksByXyz origin) :
    (originToXyz origin >>= fun xyz => Outcome.ofParsed (ofXyz xyz).parsed) = ofValue origin := by
  have hplain (w : ComponentValue) :
      ((ofPlain w >>= fun color => Outcome.ofParsed (toXyz color).parsed) >>= fun xyz =>
        Outcome.ofParsed (ofXyz xyz).parsed) = ofPlain w := by
    have hback (color : Color) : (Outcome.ofParsed (toXyz color).parsed >>= fun xyz =>
        Outcome.ofParsed (ofXyz xyz).parsed) = pure color := by
      rw [← Outcome.ofParsed_bind, ← Computed.parsed_bind, toXyz_ofXyz]
      rfl
    rw [bind_assoc]
    simp only [hback, bind_pure]
  cases origin with
  | token | block => exact hplain _
  | function name openSource values closeSource =>
    obtain ⟨f, hname, hrgb, hhsl⟩ := h
    have hpack (c : Coordinates) : f.toXyz c >>= ofXyz = f.pack c := by
      rw [funext ofXyz_eq]
      cases f with
      | rgb => exact absurd rfl hrgb
      | hsl => exact absurd rfl hhsl
      | lab | lch | oklab | oklch => rfl
    rw [originToXyz_function hname, ofValue_function hname]
    simp only [hpack]

theorem pack_eq_ok {red green blue alpha : Number} {c : Color}
    (h : pack red green blue alpha = .ok c) :
    channelByte red = .ok c.red ∧ channelByte green = .ok c.green ∧ channelByte blue = .ok c.blue ∧
      alphaByte alpha = .ok c.alpha := by
  obtain ⟨r, hr, h⟩ := exists_of_bind_eq_ok h
  obtain ⟨g, hg, h⟩ := exists_of_bind_eq_ok h
  obtain ⟨b, hb, h⟩ := exists_of_bind_eq_ok h
  obtain ⟨a, ha, h⟩ := exists_of_bind_eq_ok h
  obtain rfl := Except.ok.inj h
  exact ⟨hr, hg, hb, ha⟩

theorem RoundsChannel.rounds {x : Number} {byte rounded : UInt8} (h : RoundsChannel x rounded)
    (hbyte : channelByte x = .ok byte) : Rounds x.value byte rounded := by
  obtain ⟨same, hsame, hrounds⟩ := h
  obtain rfl := Except.ok.inj (hsame.symm.trans hbyte)
  exact hrounds

structure RoundsTo (x : Triple Number) (color rounded : Color) : Prop where
  red : Rounds x.first.value color.red rounded.red
  green : Rounds x.second.value color.green rounded.green
  blue : Rounds x.third.value color.blue rounded.blue
  alpha : rounded.alpha = color.alpha

theorem RoundsTo.eq_of_fract_lt {x : Triple Number} {color rounded : Color}
    (h : RoundsTo x color rounded)
    (hfract : x.All fun n => Int.fract (limited n.value) < 7 / 16) : rounded = color := by
  have hred := h.red.eq_of_fract_lt hfract.1
  have hgreen := h.green.eq_of_fract_lt hfract.2.1
  have hblue := h.blue.eq_of_fract_lt hfract.2.2
  have halpha := h.alpha
  cases color
  cases rounded
  rw [Color.mk.injEq]
  exact ⟨hred, hgreen, hblue, halpha⟩

/-- A color of channels, and the color of the same channels that went to XYZ and back. -/
theorem exists_rounds {c : Coordinates} {u x : Triple Number} {color : Color}
    (hfirst : Scaled x.first u.first) (hsecond : Scaled x.second u.second)
    (hthird : Scaled x.third u.third) (hopacity : c.opacity.IsDefined)
    (hpack : pack x.first x.second x.third c.opacity = .ok color) :
    ∃ relative, ColorSpace.srgb.toXyz ⟨u, c.alpha⟩ >>= ofXyz = .ok relative ∧
      RoundsTo x color relative := by
  obtain ⟨hred, hgreen, hblue, halpha⟩ := pack_eq_ok hpack
  have hclamped : alphaByte ((⟨u, c.alpha⟩ : Coordinates).opacity.clamp 0 1) = .ok color.alpha :=
    alphaByte_clamp hopacity halpha
  obtain ⟨relative, hrelative, hsame, hrounds₁, hrounds₂, hrounds₃⟩ :=
    exists_ofXyz hfirst hsecond hthird hclamped
  exact ⟨relative, hrelative, hrounds₁.rounds hred, hrounds₂.rounds hgreen, hrounds₃.rounds hblue,
    hsame⟩

end Color

namespace ChannelFunction

def byteChannels (f : ChannelFunction) (channels : Triple Number) : Computed (Triple Number) :=
  match f with
  | .hsl => do (← Hsl.toRgb channels).mapM fun x => x.mul 255
  | _ => .ok channels

theorem rgbNumber_within {v : ComponentValue} (hv : v.OfNumbers (Number.Within 1000000)) :
    Meets (fun _ => True) (Number.Within 1000000) v.rgbNumber := by
  unfold rgbNumber
  split
  · next n hkind =>
    have hrounded : Meets (fun _ => True) (Number.Within 1000000) (do
        let scaled ← (Except.ok n / 100 * 255 : Computed Number)
        return Number.integer (← (scaled.clamp 0 255).roundHalfUp)) := by
      apply (Meets.self _).bind
      intro scaled _
      obtain ⟨n, hn, hsmall⟩ := Number.roundHalfUp_within (scaled.clamp_within 255) (by norm_num)
      apply (Meets.self _).bind
      intro m hm
      obtain rfl := Except.ok.inj (hn.symm.trans hm)
      show |(n : ℚ)| ≤ 1000000
      rw [← Int.cast_abs, ← Int.natCast_natAbs]
      exact_mod_cast (by omega : n.natAbs ≤ 1000000)
    exact hrounded.parsed fun _ _ => trivial
  · next hkind =>
    unfold channelNumber
    split
    · next n hnumber => exact hv.kind hnumber
    · next n hpercentage => exact absurd hpercentage (hkind n)
    · split
      · show |((0 : Int) : ℚ)| ≤ 1000000
        norm_num
      · exact reject_meets _ fun _ => trivial

/-- The color of an origin of red, green and blue, and of its channels that went to XYZ and back. -/
theorem exists_toXyz_ofXyz {f : ChannelFunction} {c : Coordinates} {color : Color}
    (hf : f = .rgb ∨ f = .hsl) (hopacity : c.opacity.IsDefined)
    (hrgb : f = .rgb → c.channels.All (Number.Within 1000000))
    (hhsl : f = .hsl → ∀ rgb, Hsl.toRgb c.channels = .ok rgb → rgb.All (Number.DoubleWithin 4000))
    (hpack : f.pack c = .ok color) :
    ∃ relative x, f.toXyz c >>= Color.ofXyz = .ok relative ∧ f.byteChannels c.channels = .ok x ∧
      Color.RoundsTo x color relative := by
  obtain rfl | rfl := hf
  · obtain ⟨hx, hy, hz⟩ := hrgb rfl
    obtain ⟨u, hu, hscaled₁⟩ := Color.exists_scaled_of_div hx
    obtain ⟨v, hv, hscaled₂⟩ := Color.exists_scaled_of_div hy
    obtain ⟨w, hw, hscaled₃⟩ := Color.exists_scaled_of_div hz
    have hunit : c.channels.mapM (fun x => x.div 255) = .ok ⟨u, v, w⟩ := Triple.mapM_eq_ok hu hv hw
    obtain ⟨relative, hrelative, hrounds⟩ := Color.exists_rounds (u := ⟨u, v, w⟩) hscaled₁ hscaled₂
      hscaled₃ hopacity hpack
    refine ⟨relative, c.channels, ?_, rfl, hrounds⟩
    show (c.channels.mapM (fun x => x.div 255) >>= fun channels =>
      ColorSpace.srgb.toXyz ⟨channels, c.alpha⟩) >>= Color.ofXyz = _
    rw [hunit]
    exact hrelative
  · obtain ⟨rgb, hrgb, hpack⟩ := exists_of_bind_eq_ok hpack
    obtain ⟨bytes, hmap, hpack⟩ := exists_of_bind_eq_ok hpack
    obtain ⟨hu, hv, hw⟩ := hhsl rfl rgb hrgb
    obtain ⟨x, hx, hscaled₁⟩ := Color.exists_scaled_of_mul hu
    obtain ⟨y, hy, hscaled₂⟩ := Color.exists_scaled_of_mul hv
    obtain ⟨z, hz, hscaled₃⟩ := Color.exists_scaled_of_mul hw
    have hscaled : rgb.mapM (fun x => x.mul 255) = .ok ⟨x, y, z⟩ := Triple.mapM_eq_ok hx hy hz
    obtain rfl := Except.ok.inj (hmap.symm.trans hscaled)
    obtain ⟨relative, hrelative, hrounds⟩ := Color.exists_rounds (u := rgb) hscaled₁ hscaled₂
      hscaled₃ hopacity hpack
    have hbytes : byteChannels .hsl c.channels = .ok ⟨x, y, z⟩ := by
      show (Hsl.toRgb c.channels >>= fun rgb => rgb.mapM fun x => x.mul 255) = _
      rw [hrgb]
      exact hscaled
    refine ⟨relative, ⟨x, y, z⟩, ?_, hbytes, hrounds⟩
    show (Hsl.toRgb c.channels >>= fun channels =>
      ColorSpace.srgb.toXyz ⟨channels, c.alpha⟩) >>= Color.ofXyz = _
    rw [hrgb]
    exact hrelative

theorem extract_within {values : List ComponentValue}
    (h : ∀ v ∈ values, v.OfNumbers (Number.Within 1000000)) :
    Meets (fun _ => True) (fun c => c.channels.All (Number.Within 1000000))
      (extract .rgb values) := by
  have hsplit : Meets (Color.Refusal True True) _ (splitChannels values) := splitChannels_meets h
  apply (hsplit.mono (fun _ _ => trivial) fun _ h => h).bind
  intro split hsplit
  apply (Triple.meets (rgbNumber_within hsplit.1.1) (rgbNumber_within hsplit.1.2.1)
    (rgbNumber_within hsplit.1.2.2)).bind
  intro channels hchannels
  exact (Meets.self _).bind fun _ _ => hchannels

/-- The red, green and blue of a color in HSL are doubles, however large its numbers are. -/
theorem toRgb_doubleWithin {values : List ComponentValue} {c : Coordinates} {rgb : Triple Number}
    (hextract : extract .hsl values = .ok c) (hrgb : Hsl.toRgb c.channels = .ok rgb)
    (hwithin : rgb.All (Number.Within 4000)) : rgb.All (Number.DoubleWithin 4000) := by
  have hmoderate (v : ComponentValue) : v.IsModerate False True 1 :=
    ⟨moderate_of_not id _, fun h => absurd trivial h⟩
  have hsuits := ((extract_meets .hsl (fun v _ => hmoderate v) le_rfl (by decide)).of_ok hextract).1
  have hdoubles : Meets (Overflow False True) (Triple.All (Number.Fits False .double))
      (Hsl.toRgb c.channels) :=
    Hsl.toRgb_meets (Number.fits_of_not id 1010 _) (hsuits.hsl rfl).1 (hsuits.hsl rfl).2
  have hdouble {n : Number} (hn : n.Fits False .double) (hn' : n.Within 4000) :
      n.DoubleWithin 4000 := by
    cases n with
    | integer n => exact hn.elim
    | double d =>
      refine ⟨d, rfl, hn'.1, ?_⟩
      have hvalue := hn'.2
      unfold Double.real
      exact_mod_cast hvalue
  obtain ⟨hred, hgreen, hblue⟩ := hdoubles.of_ok hrgb
  exact ⟨hdouble hred hwithin.1, hdouble hgreen hwithin.2.1, hdouble hblue hwithin.2.2⟩

end ChannelFunction

theorem Number.Within.isDefined {n : Number} {limit : ℚ} (h : n.Within limit) : n.IsDefined := by
  rintro rfl
  cases h.1

namespace Color

/-- A color that is relative to an origin and has its channels, in sRGB, is the origin, if that is
no function or is packed by way of XYZ. For other origins it rounds the channels, up to the error of
the detour, where the origin drops their fractions; so it is the origin if none has a fraction near
a half, or above. The detour is that accurate only if no channel is out of range by far. -/
theorem relative_to_own_channels {name openSource closeSource : String}
    {values : List ComponentValue} {keyword origin space r g b : ComponentValue}
    (hname : lowercase name = "color")
    (hvalues : substantial values = [keyword, origin, space, r, g, b])
    (hkeyword : keyword.isKeyword "from") (hspace : space.isKeyword "srgb")
    (hr : r.isKeyword "r") (hg : g.isKeyword "g") (hb : b.isKeyword "b") :
    (PacksByXyz origin →
      ofValue (.function name openSource values closeSource) = ofValue origin) ∧
    ∀ (f : ChannelFunction) (function opening closing : String) (arguments : List ComponentValue)
      (coordinates : Coordinates) (color : Color),
      origin = .function function opening arguments closing →
      ChannelFunction.ofName? (lowercase function) = some f → f = .rgb ∨ f = .hsl →
      origin.OfNumbers (Number.Within 1000000) → f.extract arguments = .ok coordinates →
      (f = .hsl → ∀ rgb, Hsl.toRgb coordinates.channels = .ok rgb →
        rgb.All (Number.Within 4000)) →
      (ofValue origin).result = .ok color →
      ∃ (relative : Color) (x : Triple Number),
        ofValue (.function name openSource values closeSource) = pure relative ∧
        f.byteChannels coordinates.channels = .ok x ∧ RoundsTo x color relative ∧
        ((x.All fun n => Int.fract (limited n.value) < 7 / 16) → relative = color) := by
  have hrelative : ofValue (.function name openSource values closeSource) = _ :=
    ofValue_relative hname hvalues hkeyword hspace hr hg hb
  rw [hrelative]
  refine ⟨originToXyz_ofXyz, ?_⟩
  intro f function opening closing arguments coordinates color horigin hfunction hf hnumbers
    hextract hhsl hcolor
  subst horigin
  have hinside {property : Number → Prop} (h : ∀ n : Number, n.Within 1000000 → property n) :
      ∀ v ∈ arguments, v.OfNumbers property :=
    fun v hv t ht => (hnumbers.inside hv t ht).mono h
  have hpack : f.pack coordinates = .ok color := by
    rw [ofValue_function hfunction, hextract] at hcolor
    exact Computed.eq_ok_of_parsed hcolor
  obtain ⟨relative, x, hback, hx, hrounds⟩ := ChannelFunction.exists_toXyz_ofXyz hf
    ((f.extract_isDefined (hinside fun _ => Number.Within.isDefined)).of_ok hextract)
    (by
      rintro rfl
      exact (ChannelFunction.extract_within (hinside fun _ h => h)).of_ok hextract)
    (by
      rintro rfl rgb hrgb
      exact ChannelFunction.toRgb_doubleWithin hextract hrgb (hhsl rfl rgb hrgb))
    hpack
  refine ⟨relative, x, ?_, hx, hrounds, hrounds.eq_of_fract_lt⟩
  rw [originToXyz_function hfunction, hextract]
  exact congrArg (fun c : Computed Color => Outcome.ofParsed c.parsed) hback

/-- A color in HSL of which two channels are rounded up, and its alpha is kept. -/
theorem relative_to_own_channels_hsl :
    let blank : ComponentValue := .token ⟨.whitespace, " "⟩
    let word (name : String) : ComponentValue := .token ⟨.ident name, name⟩
    let origin : ComponentValue := .function "hsl" "hsl(" [.token ⟨.number 350, "350"⟩, blank,
      .token ⟨.percentage 62.5, "62.5%"⟩, blank, .token ⟨.percentage 37.5, "37.5%"⟩, blank,
      .token ⟨.delim '/', "/"⟩, blank, .token ⟨.percentage 50, "50%"⟩] ")"
    (ofValue origin).result = .ok ⟨155, 35, 55, 128⟩ ∧
      ∃ relative x, ofValue (.function "color" "color(" [word "from", blank, origin, blank,
          word "srgb", blank, word "r", blank, word "g", blank, word "b"] ")") = pure relative ∧
        RoundsTo x ⟨155, 35, 55, 128⟩ relative := by
  intro blank word origin
  let coordinates : Coordinates := ⟨⟨350, 0.625, 0.375⟩, some 0.5⟩
  have hcolor : (ofValue origin).result = .ok ⟨155, 35, 55, 128⟩ := by decide +kernel
  have hnumbers : origin.OfNumbers (Number.Within 1000000) := by decide +kernel
  have hextract : ChannelFunction.extract .hsl [.token ⟨.number 350, "350"⟩, blank,
      .token ⟨.percentage 62.5, "62.5%"⟩, blank, .token ⟨.percentage 37.5, "37.5%"⟩, blank,
      .token ⟨.delim '/', "/"⟩, blank, .token ⟨.percentage 50, "50%"⟩] = .ok coordinates := by
    decide +kernel
  have hwithin : (Hsl.toRgb coordinates.channels).toOption.all fun rgb =>
      decide (rgb.All (Number.Within 4000)) := by
    decide +kernel
  have hrelative := @relative_to_own_channels "color" "color(" ")"
    [word "from", blank, origin, blank, word "srgb", blank, word "r", blank, word "g", blank,
      word "b"]
    (word "from") origin (word "srgb") (word "r") (word "g") (word "b") (by decide +kernel) rfl rfl
    rfl rfl rfl rfl
  obtain ⟨relative, x, hrelative, -, hrounds, -⟩ := hrelative.2 .hsl _ _ _ _ coordinates _ rfl
    (by decide +kernel) (.inr rfl) hnumbers hextract (by
      intro _ rgb hrgb
      rw [hrgb] at hwithin
      exact of_decide_eq_true hwithin) hcolor
  exact ⟨hcolor, relative, x, hrelative, hrounds⟩

/-- A channel of an origin is not kept if it has a fraction; and far out of range not even its
integer part is. -/
theorem relative_to_own_channels_rounded :
    (ofText "rgb(127.6 0 0)").result = .ok ⟨127, 0, 0, 255⟩ ∧
      (ofText "color(from rgb(127.6 0 0) srgb r g b)").result = .ok ⟨128, 0, 0, 255⟩ ∧
      (ofText "hsl(29.924998 40000% -40000%)").result = .ok ⟨0, 2, 255, 255⟩ ∧
      (ofText "color(from hsl(29.924998 40000% -40000%) srgb r g b)").result =
        .ok ⟨0, 4, 255, 255⟩ := by
  decide +kernel

end Color

end StyleValue
