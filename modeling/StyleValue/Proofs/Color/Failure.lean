import StyleValue.Color.Parser
import StyleValue.Proofs.Color.Formula
import StyleValue.Proofs.Component.Numbers

/-!
# Failures of parsing a color

Text is a color, or it is rejected, or a number in it is too large: for a computation with doubles,
or for the message that rejects it. Computations do not fail in moderate text: the numbers of a
value are followed from its tokens through the channels of functions and calculations to the bytes
of the color.
-/

set_option autoImplicit false

namespace StyleValue

open ComponentValue

variable {tame long : Prop} {bits : Nat}

namespace Color

def Refusal (tame long : Prop) : Failure → Prop
  | .unsupportedColor _ => True
  | failure => Calc.Refusal (¬ tame) long failure

theorem refusal_of_overflow (fault : Fault) (h : Overflow tame False fault) :
    Refusal tame long (.fault fault) := by
  obtain ⟨rfl, htame⟩ := h
  exact htame

theorem refusal_of_calc :
    ∀ failure, Calc.Refusal (¬ tame) long failure → Refusal tame long failure
  | .rejected _, h | .fault .overflow, h | .fault .tooLong, h => h

theorem reject_refused {α : Type} {results : α → Prop} {cause : Rejection}
    (h : ¬ long → cause.IsShort) : Meets (Refusal tame long) results (reject cause) :=
  (Calc.reject_refused h).mono refusal_of_calc fun _ ha => ha

end Color

open Color

theorem Meets.refused {α : Type} {results : α → Prop} {x : Computed α}
    (h : Meets (Overflow tame False) results x) : Meets (Refusal tame long) results x.parsed :=
  h.parsed refusal_of_overflow

theorem Meets.result_bind {α β : Type} {failures : Failure → Prop} {results : α → Prop}
    {finals : β → Prop} {x : Outcome α} {f : α → Outcome β}
    (h : Meets failures results x.result)
    (hf : ∀ a, results a → Meets failures finals (f a).result) :
    Meets failures finals (x >>= f).result := by
  cases hx : x.result with
  | ok a =>
    rw [hx] at h
    rw [Outcome.bind_of_ok hx]
    exact hf a h
  | error failure =>
    rw [hx] at h
    rw [Outcome.bind_of_error hx]
    exact h

structure ComponentValue.IsModerate (tame long : Prop) (bits : Nat) (v : ComponentValue) :
    Prop where
  moderate : Moderate tame bits (flat v)
  short : ¬ long → v.OfNumbers Number.IsShort

theorem ComponentValue.IsModerate.kind {v : ComponentValue} {kind : TokenKind}
    (h : v.IsModerate tame long bits) (hkind : v.kind? = some kind) : kind.Fits tame bits := by
  cases v with
  | token t =>
    obtain rfl : t.kind = kind := Option.some.inj hkind
    exact h.moderate.fits t (List.mem_singleton.2 rfl)
  | function | block => cases hkind

theorem ComponentValue.IsModerate.refused {α : Type} {results : α → Prop} {v : ComponentValue}
    {cause : Rejection} (h : v.IsModerate tame long bits) (hshown : cause.shown = [v]) :
    Meets (Refusal tame long) results (reject cause) := by
  apply reject_refused
  intro hnone
  rw [Rejection.IsShort, hshown, List.forall_mem_singleton]
  exact h.short hnone

theorem ComponentValue.IsModerate.inside {v : ComponentValue} {name openSource closeSource : String}
    {values : List ComponentValue}
    (h : (ComponentValue.function name openSource values closeSource).IsModerate tame long bits)
    (hv : v ∈ values) : v.IsModerate tame long bits where
  moderate := h.moderate.sublist ((flat_sublist_flatList hv).trans (flatList_sublist_function ..))
  short hnone := (ofNumbers_function ..).1 (h.short hnone) v hv

theorem degreesPerUnit?_fits {unit : String} {factor : Number}
    (h : degreesPerUnit? unit = some factor) : factor.Fits tame (.bits 9) := by
  unfold degreesPerUnit? at h
  split at h <;> cases h
  · exact (Number.fits_nat 1 1 (by decide)).mono (by decide)
  · trivial
  · trivial
  · exact Number.fits_nat 9 360 (by decide)

section

variable {v : ComponentValue} (hv : v.IsModerate tame long bits) (hbits : bits ≤ 1000)
include hv hbits

theorem ComponentValue.channelNumber_meets {percent : Number} {s : Size} {k : Nat}
    (hpercent : percent.Fits tame s) (hs : s.IsSmall) (hk : bits ≤ k)
    (hscaled : ∀ n : Number, n.Fits tame ((Size.bits bits).mul s) → n.Fits tame (.bits k)) :
    Meets (Refusal tame long) (Number.Fits tame (.bits k)) (v.channelNumber percent) := by
  unfold channelNumber
  split
  · next n hkind =>
    have hn : n.Fits tame (.bits bits) := hv.kind hkind
    exact hn.mono hk
  · next n hkind =>
    have hn : n.Fits tame (.bits bits) := hv.kind hkind
    have hsmall : (Size.bits bits).IsSmall := hbits.trans (by decide)
    exact (Number.mul_meets hn hpercent hsmall hs).refused.weaken hscaled
  · split
    · exact (Number.fits_nat 0 0 (by decide)).mono (Nat.zero_le k)
    · exact hv.refused rfl

theorem ComponentValue.channelNumber_double (percent : Double) :
    Meets (Refusal tame long) (Number.Fits tame (.bits bits)) (v.channelNumber percent) :=
  channelNumber_meets hv hbits (Number.fits_double percent .double) trivial le_rfl
    fun _ h => h.of_double _

theorem ComponentValue.channelNumber_one :
    Meets (Refusal tame long) (Number.Fits tame (.bits 1010)) (v.channelNumber 1) :=
  channelNumber_meets hv hbits (Number.fits_nat 1 1 (by decide)) (by decide) (by omega)
    fun _ h => h.mono (show bits + 1 ≤ 1010 by omega)

theorem ComponentValue.degrees_meets :
    Meets (Refusal tame long) (Number.Fits tame (.bits 1010)) v.degrees := by
  unfold degrees
  split
  · next n factor hangle =>
    unfold angle? at hangle
    split at hangle
    · obtain ⟨_, hfactor, hpair⟩ := Option.map_eq_some_iff.1 hangle
      obtain ⟨hnumber, rfl⟩ := Prod.mk.inj hpair
      have hn : n.Fits tame (.bits bits) := hnumber ▸ hv.kind rfl
      have hsmall : (Size.bits bits).IsSmall := hbits.trans (by decide)
      apply (Number.mul_meets hn (degreesPerUnit?_fits hfactor) hsmall (by decide)).refused.weaken
      intro x hx
      exact hx.mono (show bits + 9 ≤ 1010 by omega)
    · cases hangle
  · split
    · exact (Number.fits_nat 0 0 (by decide)).mono (by decide)
    · exact hv.refused rfl

theorem ComponentValue.hue_meets :
    Meets (Refusal tame long) (Number.Fits tame (.bits 1010)) v.hue := by
  unfold hue
  split
  · next n hkind =>
    have hn : n.Fits tame (.bits bits) := hv.kind hkind
    exact hn.mono (by omega)
  · exact degrees_meets hv hbits
  · split
    · exact (Number.fits_nat 0 0 (by decide)).mono (by decide)
    · exact hv.refused rfl

theorem ComponentValue.rgbNumber_meets :
    Meets (Refusal tame long) (Number.Fits tame (.bits 1010)) v.rgbNumber := by
  unfold rgbNumber
  split
  · next n hkind =>
    have hn : n.Fits tame (.bits bits) := hv.kind hkind
    have hscaled : Sized tame False .double (.ok n / 100 * 255) :=
      ((Sized.of_fits (hn.mono hbits)).div (.nat 7 100)).mul (.nat 8 255)
    apply Meets.refused
    apply hscaled.bind
    intro scaled _
    exact (rounded_sized scaled).weaken fun _ h => h.mono (by decide)
  · exact channelNumber_one hv hbits

theorem ChannelFunction.fraction_meets :
    Meets (Refusal tame long) (Number.Fits tame .double) (fraction v) := by
  apply (channelNumber_one hv hbits).bind
  intro n hn
  exact (Number.div_meets hn (Number.fits_nat 7 100 (by decide)) (by decide) (by decide)
    rfl).refused

end

theorem alphaNumber_meets {alpha : Option ComponentValue}
    (h : ∀ v ∈ alpha, v.IsModerate tame long bits) (hpos : 1 ≤ bits) (hbits : bits ≤ 1000) :
    Meets (Refusal tame long) (Number.Fits tame (.bits bits)) (alphaNumber alpha) := by
  cases alpha with
  | none => exact (Number.fits_nat 1 1 (by decide)).mono hpos
  | some v => exact channelNumber_double (h v rfl) hbits _

theorem splitSlash_all {property : ComponentValue → Prop} {values before : List ComponentValue}
    {after : Option (List ComponentValue)} (h : ∀ v ∈ values, property v)
    (hsplit : splitSlash values = (before, after)) :
    (∀ v ∈ before, property v) ∧ ∀ vs ∈ after, ∀ v ∈ vs, property v := by
  unfold splitSlash at hsplit
  obtain ⟨rfl, rfl⟩ := Prod.mk.inj hsplit
  constructor
  · intro v hv
    exact h v ((List.takeWhile_sublist _).subset hv)
  · intro vs hvs v hv
    apply h v
    cases hdrop : values.drop (values.takeWhile fun v => !v.isDelim '/').length with
    | nil =>
      rw [hdrop] at hvs
      cases hvs
    | cons slash others =>
      rw [hdrop] at hvs
      cases hvs
      exact List.mem_of_mem_drop (hdrop ▸ List.mem_cons_of_mem slash hv)

/-- The channels and the alpha are found among the values, or these are rejected. -/
theorem splitAlpha_meets {property : ComponentValue → Prop} {values : List ComponentValue}
    (h : ∀ v ∈ values, property v) (count : Nat) :
    Meets (Refusal tame long)
      (fun split => (∀ v ∈ split.channels, property v) ∧ ∀ v ∈ split.alpha, property v)
      (splitAlpha count values) := by
  have hsubstantial : ∀ v ∈ substantial values, property v :=
    fun v hv => h v (List.mem_of_mem_filter hv)
  have hcounted (split : ChannelValues) (hchannels : ∀ v ∈ split.channels, property v)
      (halpha : ∀ v ∈ split.alpha, property v) : Meets (Refusal tame long)
        (fun split => (∀ v ∈ split.channels, property v) ∧ ∀ v ∈ split.alpha, property v)
        (if (split.channels.length : Int) = count then return split
          else reject (.wrongComponents count split.channels.length)) := by
    split
    · exact ⟨hchannels, halpha⟩
    · trivial
  unfold splitAlpha
  dsimp only
  split
  · trivial
  · split
    · next channels alpha hsplit =>
      obtain ⟨hchannels, halpha⟩ := splitSlash_all hsubstantial hsplit
      apply hcounted ⟨channels, some alpha⟩ hchannels
      rintro _ ⟨⟩
      exact halpha _ rfl alpha (List.mem_singleton.2 rfl)
    · trivial
    · split
      · -- A length is not negative.
        omega
      · split
        · trivial
        · exact hcounted ⟨_, _⟩ (fun v hv => hsubstantial v (List.mem_of_mem_take hv))
            fun v hv => hsubstantial v (List.mem_of_getElem? hv)

theorem splitChannels_meets {property : ComponentValue → Prop} {values : List ComponentValue}
    (h : ∀ v ∈ values, property v) :
    Meets (Refusal tame long) (fun split => split.1.All property ∧ ∀ v ∈ split.2, property v)
      (splitChannels values) := by
  apply (splitAlpha_meets h 3).bind
  intro split hsplit
  split
  · next x y z hchannels =>
    rw [hchannels] at hsplit
    exact ⟨⟨hsplit.1 x (by simp), hsplit.1 y (by simp), hsplit.1 z (by simp)⟩, hsplit.2⟩
  · trivial

namespace ChannelFunction

structure Suits (tame : Prop) (f : ChannelFunction) (channels : Triple Number) : Prop where
  fits : channels.All (Number.Fits tame (.bits 1010))
  hsl : f = .hsl → channels.second.Fits tame .double ∧ channels.third.Fits tame .double

theorem channels_meets {v : Triple ComponentValue} (f : ChannelFunction)
    (hv : v.All (IsModerate tame long bits)) (hbits : bits ≤ 1000) :
    Meets (Refusal tame long) (Suits tame f) (f.channels v) := by
  obtain ⟨hfirst, hsecond, hthird⟩ := hv
  have hdouble {w : ComponentValue} (hw : w.IsModerate tame long bits) (percent : Double) :
      Meets (Refusal tame long) (Number.Fits tame (.bits 1010)) (w.channelNumber percent) :=
    (channelNumber_double hw hbits percent).weaken fun _ h => h.mono (by omega)
  cases f with
  | rgb =>
    exact (Triple.meets (rgbNumber_meets hfirst hbits) (rgbNumber_meets hsecond hbits)
      (rgbNumber_meets hthird hbits)).weaken fun _ h => ⟨h, nofun⟩
  | hsl =>
    apply (hue_meets hfirst hbits).bind
    intro hue hhue
    apply (fraction_meets hsecond hbits).bind
    intro saturation hs
    apply (fraction_meets hthird hbits).bind
    intro lightness hl
    exact ⟨⟨hhue, hs.of_double _, hl.of_double _⟩, fun _ => ⟨hs, hl⟩⟩
  | lab =>
    exact (Triple.meets (channelNumber_one hfirst hbits) (hdouble hsecond _)
      (hdouble hthird _)).weaken fun _ h => ⟨h, nofun⟩
  | lch =>
    exact (Triple.meets (channelNumber_one hfirst hbits) (hdouble hsecond _)
      (hue_meets hthird hbits)).weaken fun _ h => ⟨h, nofun⟩
  | oklab =>
    exact (Triple.meets (hdouble hfirst _) (hdouble hsecond _)
      (hdouble hthird _)).weaken fun _ h => ⟨h, nofun⟩
  | oklch =>
    exact (Triple.meets (hdouble hfirst _) (hdouble hsecond _)
      (hue_meets hthird hbits)).weaken fun _ h => ⟨h, nofun⟩

theorem extract_meets {values : List ComponentValue} (f : ChannelFunction)
    (h : ∀ v ∈ values, v.IsModerate tame long bits) (hpos : 1 ≤ bits) (hbits : bits ≤ 1000) :
    Meets (Refusal tame long)
      (fun c => Suits tame f c.channels ∧ c.opacity.Fits tame (.bits bits)) (f.extract values) := by
  apply (splitChannels_meets h).bind
  intro split hsplit
  apply (f.channels_meets hsplit.1 hbits).bind
  intro channels hchannels
  apply (alphaNumber_meets hsplit.2 hpos hbits).bind
  intro alpha halpha
  exact ⟨hchannels, halpha⟩

variable {c : Coordinates} {alpha : Size} {tolerated : Prop} {f : ChannelFunction}
  (hc : Suits tame f c.channels) (halpha : c.opacity.Fits tame alpha)
include hc halpha

theorem toXyz_meets : Meets (Overflow tame tolerated) (Coordinates.Fits tame .double alpha)
    (f.toXyz c) := by
  have hfits : c.Fits tame (.bits 1010) alpha := ⟨hc.fits, halpha⟩
  cases f with
  | rgb =>
    apply (Triple.mapM_meets hc.fits fun x hx => Number.div_meets hx
      (Number.fits_nat 8 255 (by decide)) (by decide) (by decide) rfl).bind
    intro channels hchannels
    exact ColorSpace.srgb_toXyz_meets ⟨hchannels.of_double, halpha⟩
  | hsl =>
    apply (Hsl.toRgb_meets hc.fits.1 (hc.hsl rfl).1 (hc.hsl rfl).2).bind
    intro channels hchannels
    exact ColorSpace.srgb_toXyz_meets ⟨hchannels.of_double, halpha⟩
  | lab => exact Lab.toXyz_meets hfits
  | lch => exact Lch.toXyz_meets hfits
  | oklab => exact Oklab.toXyz_meets hfits
  | oklch => exact Oklch.toXyz_meets hfits

omit halpha in
theorem pack_meets (hopacity : c.opacity.Fits tame (.bits 1010)) :
    Meets (Overflow tame tolerated) (fun _ => True) (f.pack c) := by
  have hxyz : Meets (Overflow tame tolerated) (fun _ => True)
      (do Color.packXyz (← f.toXyz c)) := by
    apply (toXyz_meets hc hopacity).bind
    intro xyz h
    exact Color.packXyz_meets h.channels.of_double h.opacity
  cases f with
  | rgb => exact Color.pack_meets hc.fits.1 hc.fits.2.1 hc.fits.2.2 hopacity
  | hsl =>
    apply (Hsl.toRgb_meets hc.fits.1 (hc.hsl rfl).1 (hc.hsl rfl).2).bind
    intro rgb hrgb
    apply (Triple.mapM_meets hrgb fun x hx => Number.mul_meets hx
      (Number.fits_nat 8 255 (by decide)) (by decide) (by decide)).bind
    intro bytes hbytes
    exact Color.pack_meets hbytes.of_double.1 hbytes.of_double.2.1 hbytes.of_double.2.2 hopacity
  | lab | lch | oklab | oklch => exact hxyz

end ChannelFunction

namespace Color

theorem toXyz_meets (c : Color) : Meets (Overflow tame False)
    (Coordinates.Fits tame .double (.bits bits)) c.toXyz := by
  have hchannel (byte : UInt8) :
      Sized tame False .double ((Number.integer byte.toNat).div 255) := by
    apply Number.div_meets (j := .bits 8) (k := .bits 8) _ (Number.fits_nat 8 255 (by decide))
      (by decide) (by decide) rfl
    exact fun _ => byte.toNat_lt
  apply (hchannel c.red).bind
  intro red hred
  apply (hchannel c.green).bind
  intro green hgreen
  apply (hchannel c.blue).bind
  intro blue hblue
  exact ColorSpace.srgb_toXyz_meets
    ⟨⟨hred.of_double _, hgreen.of_double _, hblue.of_double _⟩, Number.fits_double _ _⟩

theorem ofPlain_meets {failures : Failure → Prop} (v : ComponentValue) :
    Meets failures (fun _ => True) (ofPlain v).result := by
  unfold ofPlain
  split
  · split <;> trivial
  · split <;> trivial
  · trivial

variable (hpos : 1 ≤ bits) (hbits : bits ≤ 1000)
include hpos hbits

theorem originToXyz_meets {v : ComponentValue} (hv : v.IsModerate tame long bits) :
    Meets (Refusal tame long) (Coordinates.Fits tame .double (.bits bits)) (originToXyz v).result := by
  have hplain (w : ComponentValue) : Meets (Refusal tame long)
      (Coordinates.Fits tame .double (.bits bits))
      (do Outcome.ofParsed (toXyz (← ofPlain w))).result :=
    (ofPlain_meets w).result_bind fun c _ => (toXyz_meets c).refused
  cases v with
  | token | block => exact hplain _
  | function name openSource values closeSource =>
    unfold originToXyz
    dsimp only
    split
    · next f hname =>
      apply (f.extract_meets (fun w hw => hv.inside hw) hpos hbits).bind
      intro c hc
      exact (f.toXyz_meets hc.1 hc.2).refused
    · trivial

theorem relativeChannel_meets {bindings : Bindings} {v : ComponentValue}
    (hbindings : ∀ b ∈ bindings, b.2.Fits tame (.bits bits)) (hv : v.IsModerate tame long bits) :
    Meets (Refusal tame long) (Number.Fits tame (.bits 1010)) (relativeChannel bindings v) := by
  have hwide {n : Number} (h : n.Fits tame (.bits bits)) : n.Fits tame (.bits 1010) :=
    h.mono (by omega)
  unfold relativeChannel
  split
  · next n _ => exact hwide (hv.kind rfl)
  · next n _ =>
    have hn : n.Fits tame (.bits 1010) := hwide (hv.kind rfl)
    exact (Number.div_meets hn (Number.fits_nat 7 100 (by decide)) (by decide) (by decide)
      rfl).refused.weaken fun _ h => h.of_double _
  · next name openSource values closeSource =>
    split
    · next hcalc =>
      have hsub := flatList_sublist_function name openSource closeSource values
      -- The function is a calculation itself, so the operands in it are few.
      have hfew (htame : tame) : bits * operandCount (flatList values) ≤ 1000 :=
        (Nat.mul_le_mul_left bits hsub.countP_le).trans
          (hv.moderate.few htame
            ⟨⟨.function name, openSource⟩, List.mem_cons_self, beq_iff_eq.2 hcalc⟩)
      exact (Calc.evaluate_moderate hbindings hpos
        (fun t ht => hv.moderate.fits t (hsub.subset ht)) hfew
        fun hnone => (ofNumbers_function ..).1 (hv.short hnone)).mono
        refusal_of_calc fun _ h => h.mono (by decide)
    · exact hv.refused rfl
  · split
    · next n hbound =>
      obtain ⟨name, -, hlookup⟩ := Option.bind_eq_some_iff.1 hbound
      exact hwide (Calc.fits_of_lookup hbindings hlookup)
    · split
      · exact (Number.fits_nat 0 0 (by decide)).mono (by decide)
      · exact hv.refused rfl

theorem ofRelativeChannels_meets {origin : Coordinates} {values : List ComponentValue}
    (space : ColorSpace) (horigin : origin.Fits tame .double (.bits bits))
    (h : ∀ v ∈ values, v.IsModerate tame long bits) :
    Meets (Refusal tame long) (fun _ => True) (ofRelativeChannels space origin values) := by
  obtain ⟨⟨hfirst, hsecond, hthird⟩, hopacity⟩ := horigin
  have hbindings : ∀ b ∈ ([(space.channelNames.first, origin.channels.first),
      (space.channelNames.second, origin.channels.second),
      (space.channelNames.third, origin.channels.third), ("alpha", origin.opacity)] : Bindings),
      b.2.Fits tame (.bits bits) := by
    simp [hfirst.of_double, hsecond.of_double, hthird.of_double, hopacity]
  have hresolve {v : ComponentValue} (hv : v.IsModerate tame long bits) :=
    relativeChannel_meets hpos hbits hbindings hv
  unfold ofRelativeChannels
  apply (splitChannels_meets h).bind
  rintro ⟨channels, alpha⟩ ⟨hchannels, halpha⟩
  apply (hresolve hchannels.1).bind
  intro first hfirst
  apply (hresolve hchannels.2.1).bind
  intro second hsecond
  apply (hresolve hchannels.2.2).bind
  intro third hthird
  have hpack {alpha : Number} (halpha : alpha.Fits tame (.bits 1010)) :
      Meets (Refusal tame long) (fun _ => True)
        (space.pack ⟨⟨first, second, third⟩, some alpha⟩).parsed :=
    (space.pack_meets ⟨⟨hfirst, hsecond, hthird⟩, halpha⟩).refused
  cases alpha with
  | none => exact hpack (hopacity.mono (by omega))
  | some v => exact (hresolve (halpha v rfl)).bind fun _ h => hpack h

theorem relative_meets {origin : ComponentValue} {values : List ComponentValue}
    (space : ColorSpace) (horigin : origin.IsModerate tame long bits)
    (h : ∀ v ∈ values, v.IsModerate tame long bits) :
    Meets (Refusal tame long) (fun _ => True) (relative space origin values).result := by
  apply (originToXyz_meets hpos hbits horigin).result_bind
  intro xyz hxyz
  have hcoordinates : Meets (Refusal tame long) (Coordinates.Fits tame .double (.bits bits))
      (space.ofXyz xyz).parsed :=
    (hxyz.convert_meets fun _ h => space.channelsOfXyz_meets h).refused
  exact hcoordinates.bind fun _ hc => ofRelativeChannels_meets hpos hbits space hc h

omit hpos hbits in
theorem spaceOf_meets {v : ComponentValue} (hv : v.IsModerate tame long bits) :
    Meets (Refusal tame long) (fun _ => True) (spaceOf v) := by
  unfold spaceOf
  split
  · trivial
  · exact hv.refused rfl

theorem ofSpaceChannels_meets {values : List ComponentValue} (space : ColorSpace)
    (h : ∀ v ∈ values, v.IsModerate tame long bits) :
    Meets (Refusal tame long) (fun _ => True) (ofSpaceChannels space values) := by
  have hnumber {v : ComponentValue} (hv : v.IsModerate tame long bits) :
      Meets (Refusal tame long) (Number.Fits tame (.bits 1010)) (v.channelNumber hundredth) :=
    (channelNumber_double hv hbits _).weaken fun _ h => h.mono (by omega)
  unfold ofSpaceChannels
  apply (splitChannels_meets h).bind
  rintro ⟨channels, alpha⟩ ⟨hchannels, halpha⟩
  apply (hnumber hchannels.1).bind
  intro first hfirst
  apply (hnumber hchannels.2.1).bind
  intro second hsecond
  apply (hnumber hchannels.2.2).bind
  intro third hthird
  apply (alphaNumber_meets halpha hpos hbits).bind
  intro alpha halpha
  exact (space.pack_meets ⟨⟨hfirst, hsecond, hthird⟩, halpha.mono (by omega)⟩).refused

theorem ofColorFunction_meets {values : List ComponentValue}
    (h : ∀ v ∈ values, v.IsModerate tame long bits) :
    Meets (Refusal tame long) (fun _ => True) (ofColorFunction values).result := by
  have hsubstantial : ∀ v ∈ substantial values, v.IsModerate tame long bits :=
    fun v hv => h v (List.mem_of_mem_filter hv)
  have hdirect (space : ComponentValue) (channels : List ComponentValue)
      (hchannels : ∀ v ∈ space :: channels, v.IsModerate tame long bits) : Meets (Refusal tame long)
        (fun _ => True)
        (Outcome.ofParsed do ofSpaceChannels (← spaceOf space) channels).result := by
    apply (spaceOf_meets (hchannels space List.mem_cons_self)).bind
    intro space _
    exact ofSpaceChannels_meets hpos hbits space fun v hv => hchannels v (by simp [hv])
  unfold ofColorFunction
  dsimp only
  split
  · next keyword origin space channels hvalues =>
    rw [hvalues] at hsubstantial
    split
    · have hspace : Meets (Refusal tame long) (fun _ => True)
          (Outcome.ofParsed (spaceOf space)).result :=
        spaceOf_meets (hsubstantial space (by simp))
      apply hspace.result_bind
      intro space _
      exact relative_meets hpos hbits space (hsubstantial origin (by simp))
        fun v hv => hsubstantial v (by simp [hv])
    · exact hdirect keyword _ hsubstantial
  · split
    · trivial
    · next space channels hvalues => exact hdirect space channels (hvalues ▸ hsubstantial)

theorem ofValue_meets {v : ComponentValue} (hv : v.IsModerate tame long bits) :
    Meets (Refusal tame long) (fun _ => True) (ofValue v).result := by
  cases v with
  | token | block => exact ofPlain_meets _
  | function name openSource values closeSource =>
    have hinside : ∀ w ∈ values, w.IsModerate tame long bits := fun w hw => hv.inside hw
    unfold ofValue
    dsimp only
    split
    · next f hname =>
      apply (f.extract_meets hinside hpos hbits).bind
      intro c hc
      exact (f.pack_meets hc.1 (hc.2.mono (by omega))).refused
    · split
      · exact ofColorFunction_meets hpos hbits hinside
      · trivial

omit hpos hbits in
theorem toNat_lt (c : Color) : c.toNat < 2 ^ 32 := by
  have hred := c.red.toNat_lt
  have hgreen := c.green.toNat_lt
  have hblue := c.blue.toNat_lt
  have halpha := c.alpha.toNat_lt
  unfold toNat
  omega

/-- A text without a fault, if its numbers are tame, whose tokens are moderate. -/
theorem ofText_meets {text : String} (hfault : tame → (lexText text).fault = none)
    (h : Moderate tame bits (lexText text).tokens)
    (hshort : ¬ long → ∀ t ∈ (lexText text).tokens, t.kind.OfNumber Number.IsShort) :
    Meets (Refusal tame long) (fun _ => True) (ofText text).result := by
  have htokens : Meets (Refusal tame long) (fun tokens => tokens = (lexText text).tokens)
      (lexText text).readAll.result := by
    unfold TokenStream.readAll
    dsimp only
    split
    · next fault hsome =>
      obtain rfl := fault_of_lex hsome
      intro htame
      rw [hfault htame] at hsome
      cases hsome
    · rfl
  apply htokens.result_bind
  rintro tokens rfl
  apply (TokenStream.value_meets (fun _ => trivial) _).result_bind
  intro v hv
  exact ofValue_meets hpos hbits ⟨h.madeOf hv, fun hnone => ofNumbers_of_madeOf (hshort hnone) hv⟩

end Color

/-- Text without an integer too large for a color: all numbers are finite or infinite doubles or
integers of a number of binary digits, and those of a calculation have not more than a thousand
digits together. -/
def ModerateText (text : String) : Prop :=
  (lexText text).fault = none ∧
    ∃ bits, 1 ≤ bits ∧ bits ≤ 1000 ∧ Moderate True bits (lexText text).tokens

theorem moderate_of_not (h : ¬ tame) (tokens : List Token) : Moderate tame bits tokens where
  fits t _ := by
    unfold TokenKind.Fits
    split
    · exact Number.fits_of_not h _ _
    · exact Number.fits_of_not h _ _
    · exact Number.fits_of_not h _ _
    · trivial
  few htame := absurd htame h

/-- A text is a color of four bytes, or it is rejected, or it overflows, or the message that rejects
it cannot be made. It does not overflow if its integers are moderate, however large its other
numbers are, and the message can be made unless an integer of the text is too long for it. -/
theorem Color.ofText_color_or_refusal_or_fault (text : String) :
    Meets (fun failure => (∃ cause, failure = .rejected cause) ∨
        (∃ cause, failure = .unsupportedColor cause) ∨
        failure = .fault .overflow ∧ ¬ ModerateText text ∨
        failure = .fault .tooLong ∧
          ∃ t ∈ (lexText text).tokens, ¬ t.kind.OfNumber Number.IsShort)
      (fun color => color.toNat < 2 ^ 32) (Color.ofText text).result := by
  have hcauses (tame long : Prop) (htame : ModerateText text → tame) (failure : Failure)
      (h : Refusal tame long failure) : (∃ cause, failure = .rejected cause) ∨
        (∃ cause, failure = .unsupportedColor cause) ∨
        failure = .fault .overflow ∧ ¬ ModerateText text ∨ failure = .fault .tooLong ∧ long := by
    match failure, h with
    | .rejected cause, _ => exact .inl ⟨cause, rfl⟩
    | .unsupportedColor cause, _ => exact .inr (.inl ⟨cause, rfl⟩)
    | .fault .overflow, h =>
      exact .inr (.inr (.inl ⟨rfl, fun hmoderate => h (htame hmoderate)⟩))
    | .fault .tooLong, h => exact .inr (.inr (.inr ⟨rfl, h⟩))
  have hshort (hnone : ¬ ∃ t ∈ (lexText text).tokens, ¬ t.kind.OfNumber Number.IsShort) :
      ∀ t ∈ (lexText text).tokens, t.kind.OfNumber Number.IsShort :=
    fun t ht => by_contra fun hlong => hnone ⟨t, ht, hlong⟩
  by_cases hmoderate : ModerateText text
  · obtain ⟨hfault, bits, hpos, hbits, htokens⟩ := hmoderate
    exact (ofText_meets hpos hbits (fun _ => hfault) htokens hshort).mono
      (hcauses True _ fun _ => trivial) fun c _ => c.toNat_lt
  · -- Nothing is assumed of the integers here, and overflow is not excluded.
    exact (ofText_meets le_rfl (by decide) False.elim (moderate_of_not id _) hshort).mono
      (hcauses False _ fun h => hmoderate h) fun c _ => c.toNat_lt

/-- A number beyond all doubles that is not written as an integer is infinite instead. -/
theorem Color.ofText_huge_double : ModerateText "color(from #f00 srgb calc(r * 1e400) g 255)" ∧
    (Color.ofText "color(from #f00 srgb calc(r * 1e400) g 255)").result ≠
      .error (.fault .overflow) := by
  have hmoderate : ModerateText "color(from #f00 srgb calc(r * 1e400) g 255)" :=
    ⟨by decide +kernel, 8, by decide, by decide, by decide +kernel⟩
  refine ⟨hmoderate, fun hoverflow => ?_⟩
  have hmeets := ofText_color_or_refusal_or_fault
    "color(from #f00 srgb calc(r * 1e400) g 255)"
  rw [hoverflow] at hmeets
  rcases hmeets with ⟨_, hcause⟩ | ⟨_, hcause⟩ | ⟨_, hnot⟩ | ⟨hcause, _⟩
  · cases hcause
  · cases hcause
  · exact hnot hmoderate
  · cases hcause

/-- An integer that is not moderate overflows. -/
theorem Color.ofText_huge_integer :
    (Color.ofText (String.ofList
      ("rgb(1".toList ++ List.replicate 400 '0' ++ " 0 0)".toList))).result =
      .error (.fault .overflow) := by
  rw [ofText, lexText, lexChunks, filterChunks, List.map_singleton, String.toList_ofList]
  decide +kernel

/-- An angle is no red, and the message cannot show this one. -/
example : (Color.ofValue (.function "rgb" "rgb(" [.token ⟨.dimension (.integer (10 ^ 4300)) "deg",
      String.ofList ('1' :: List.replicate 4300 '0' ++ "deg".toList)⟩,
    .token ⟨.number (.integer 0), "0"⟩, .token ⟨.number (.integer 0), "0"⟩] ")")).result =
      .error (.fault .tooLong) := by
  decide +kernel

end StyleValue
