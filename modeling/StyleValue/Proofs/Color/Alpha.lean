import StyleValue.Proofs.Color.Failure
import StyleValue.Proofs.Color.Written
import StyleValue.Proofs.Component.Input
import StyleValue.Proofs.Component.Numbers
import StyleValue.Proofs.Outcome

/-!
# Alpha in conversions of colors

Conversions between color spaces pass the alpha on, and it is packed on its own. So the alpha of a
color in a space is a function of the alpha given, whatever becomes of the channels, and a relative
color without an alpha has that of its origin. The second needs an alpha that is a number, as all
numbers of a text are.
-/

set_option autoImplicit false

namespace StyleValue

open ComponentValue

namespace Color

theorem clamp_unit_cases (x : Number) : x.clamp 0 1 = x ∨ x.clamp 0 1 = 0 ∨ x.clamp 0 1 = 1 := by
  unfold Number.clamp
  split
  · exact .inl rfl
  · split
    · exact .inr (.inl rfl)
    · exact .inr (.inr rfl)

theorem clamp_clamp (x : Number) : (x.clamp 0 1).clamp 0 1 = x.clamp 0 1 := by
  obtain hx | hx | hx := clamp_unit_cases x
  · rw [hx, hx]
  · rw [hx]
    rfl
  · rw [hx]
    rfl

theorem alphaByte_clamp_eq {x : Number} (h : x.isNotANumber = .ok false) :
    alphaByte (x.clamp 0 1) = alphaByte x := by
  have hclamped : (x.clamp 0 1).isNotANumber = .ok false := by
    obtain hx | hx | hx := clamp_unit_cases x
    · rw [hx, h]
    · rw [hx]
      exact eq_ok_of_toOption (by decide)
    · rw [hx]
      exact eq_ok_of_toOption (by decide)
  rw [alphaByte_eq hclamped, clamp_clamp, ← alphaByte_eq h]

/-- An alpha that is clamped has the same byte. -/
theorem alphaByte_clamp {x : Number} {byte : UInt8} (hx : x.IsDefined)
    (h : alphaByte x = .ok byte) : alphaByte (x.clamp 0 1) = .ok byte := by
  have hnumber : x.isNotANumber = .ok false := by
    have hdouble := Number.toDouble_isDefined hx
    rw [alphaByte, Number.isNotANumber] at h
    rw [Number.isNotANumber]
    generalize x.toDouble = double at h hdouble ⊢
    cases double with
    | error fault => cases h
    | ok d =>
      cases d with
      | notANumber => exact absurd rfl hdouble
      | infinite | finite => rfl
  rw [alphaByte_clamp_eq hnumber, h]

theorem alphaByte_clamp_unpackAlpha (byte : UInt8) :
    alphaByte ((Number.double (unpackAlpha byte)).clamp 0 1) = .ok byte := by
  have hdefined : (Number.double (unpackAlpha byte)).IsDefined := by
    apply Number.isDefined_double
    intro h
    have hfinite := (isUnit_unpackAlpha byte).finite
    rw [h] at hfinite
    cases hfinite
  exact alphaByte_clamp hdefined (alphaByte_unpackAlpha byte)

def HasOpacity (opacity : Number) (color : Color) : Prop :=
  alphaByte (opacity.clamp 0 1) = .ok color.alpha

def HasAlpha (alpha : Number) (color : Color) : Prop := alphaByte alpha = .ok color.alpha

theorem pack_alpha (red green blue alpha : Number) :
    Meets (fun _ => True) (HasAlpha alpha) (pack red green blue alpha) :=
  (Meets.self _).bind fun _ _ => (Meets.self _).bind fun _ _ => (Meets.self _).bind fun _ _ =>
    (Meets.self _).bind fun _ halpha => halpha

theorem packSrgb_opacity (c : Coordinates) :
    Meets (fun _ => True) (HasOpacity c.opacity) (packSrgb c) :=
  (Meets.self _).bind fun _ _ => pack_alpha _ _ _ _

theorem packLinear_opacity (c : Coordinates) :
    Meets (fun _ => True) (HasOpacity c.opacity) (packLinear c) :=
  (Meets.self _).bind fun channels _ => packSrgb_opacity { c with channels }

theorem packXyz_opacity (c : Coordinates) :
    Meets (fun _ => True) (HasOpacity c.opacity) (packXyz c) :=
  (Meets.self _).bind fun channels _ => packLinear_opacity { c with channels }

end Color

open Color

theorem Coordinates.convert_opacity (f : Triple Number → Computed (Triple Number))
    (c : Coordinates) : Meets (fun _ => True) (fun d => d.opacity = c.opacity) (c.convert f) :=
  (Meets.self _).bind fun _ _ => rfl

theorem ColorSpace.pack_opacity (s : ColorSpace) (c : Coordinates) :
    Meets (fun _ => True) (HasOpacity c.opacity) (s.pack c) := by
  have hxyz : Meets (fun _ => True) (HasOpacity c.opacity) (do packXyz (← s.toXyz c)) := by
    apply (c.convert_opacity s.channelsToXyz).bind
    intro d hd
    rw [← hd]
    exact packXyz_opacity d
  cases s with
  | srgb => exact packSrgb_opacity c
  | srgbLinear => exact packLinear_opacity c
  | displayP3 | a98 | proPhoto | rec2020 | xyzD65 | xyzD50 => exact hxyz

namespace ChannelFunction

def IsDirect (f : ChannelFunction) : Prop := f = .rgb ∨ f = .hsl

instance (f : ChannelFunction) : Decidable f.IsDirect := by
  unfold IsDirect
  infer_instance

theorem toXyz_opacity (f : ChannelFunction) (c : Coordinates) :
    Meets (fun _ => True) (fun d => d.opacity = c.opacity) (f.toXyz c) := by
  have hpolar : Meets (fun _ => True) (fun d => d.opacity = c.opacity) (Lch.toLab c) :=
    (Meets.self _).bind fun _ _ => (Meets.self _).bind fun _ _ => (Meets.self _).bind fun _ _ => rfl
  have hlab (d : Coordinates) : Meets (fun _ => True) (fun e => e.opacity = d.opacity) (Lab.toXyz d) :=
    d.convert_opacity _
  have hoklab (d : Coordinates) :
      Meets (fun _ => True) (fun e => e.opacity = d.opacity) (Oklab.toXyz d) :=
    d.convert_opacity _
  cases f with
  | rgb => exact (Meets.self _).bind fun channels _ => Coordinates.convert_opacity _ { c with channels }
  | hsl => exact (Meets.self _).bind fun channels _ => Coordinates.convert_opacity _ { c with channels }
  | lab => exact hlab c
  | lch => exact hpolar.bind fun d hd => hd ▸ hlab d
  | oklab => exact hoklab c
  | oklch => exact hpolar.bind fun d hd => hd ▸ hoklab d

theorem pack_direct_alpha {f : ChannelFunction} (hf : f.IsDirect) (c : Coordinates) :
    Meets (fun _ => True) (HasAlpha c.opacity) (f.pack c) := by
  rcases hf with rfl | rfl
  · exact pack_alpha _ _ _ _
  · exact (Meets.self _).bind fun _ _ => (Meets.self _).bind fun _ _ => pack_alpha _ _ _ _

theorem pack_detour_opacity {f : ChannelFunction} (hf : ¬ f.IsDirect) (c : Coordinates) :
    Meets (fun _ => True) (HasOpacity c.opacity) (f.pack c) := by
  have hxyz : Meets (fun _ => True) (HasOpacity c.opacity) (do packXyz (← f.toXyz c)) := by
    apply (f.toXyz_opacity c).bind
    intro d hd
    rw [← hd]
    exact packXyz_opacity d
  cases f with
  | rgb => exact absurd (.inl rfl) hf
  | hsl => exact absurd (.inr rfl) hf
  | lab | lch | oklab | oklch => exact hxyz

/-- The alpha of a color, which is clamped or not before it is packed. -/
theorem pack_opacity (f : ChannelFunction) {c : Coordinates} (hc : c.opacity.IsDefined) :
    Meets (fun _ => True) (HasOpacity c.opacity) (f.pack c) := by
  by_cases hf : f.IsDirect
  · exact (pack_direct_alpha hf c).weaken fun _ halpha => alphaByte_clamp hc halpha
  · exact pack_detour_opacity hf c

end ChannelFunction

theorem Double.mul_ne_notANumber {x y : Double} (hx : x ≠ .notANumber) (hy : y.isFinite)
    (hzero : y.value ≠ 0) : x * y ≠ .notANumber := by
  show Double.mul x y ≠ .notANumber
  cases y with
  | notANumber | infinite => cases hy
  | finite t n f hn =>
    cases x with
    | notANumber => exact absurd rfl hx
    | infinite s =>
      rw [Double.mul, if_neg hzero]
      intro hproduct
      cases hproduct
    | finite => exact nearest_ne_notANumber _ _

theorem Number.mul_double_isDefined {n : Number} {x : Double} (hn : n.IsDefined)
    (hx : x.isFinite) (hzero : x.value ≠ 0) :
    Meets (fun _ => True) IsDefined (n.mul (.double x)) := by
  have hproduct : Meets (fun _ => True) IsDefined
      (do return Number.double ((← n.toDouble) * x)) :=
    (toDouble_isDefined hn).bind fun _ hd => isDefined_double (Double.mul_ne_notANumber hd hx hzero)
  cases n with
  | double | integer => exact hproduct

theorem alphaNumber_isDefined {alpha : Option ComponentValue}
    (h : ∀ v ∈ alpha, v.OfNumbers Number.IsDefined) :
    Meets (fun _ => True) Number.IsDefined (alphaNumber alpha) := by
  have hundredth : (1 / 100 : Double).isFinite ∧ (1 / 100 : Double).value ≠ 0 := by decide +kernel
  cases alpha with
  | none => exact Number.isDefined_integer 1
  | some v =>
    unfold alphaNumber channelNumber
    dsimp only
    split
    · next n hkind => exact (h v rfl).kind hkind
    · next n hkind =>
      exact (Number.mul_double_isDefined ((h v rfl).kind hkind) hundredth.1 hundredth.2).parsed
        fun _ _ => trivial
    · split
      · exact Number.isDefined_integer 0
      · exact reject_meets _ fun _ => trivial

theorem ChannelFunction.extract_isDefined {values : List ComponentValue} (f : ChannelFunction)
    (h : ∀ v ∈ values, v.OfNumbers Number.IsDefined) :
    Meets (fun _ => True) (fun c => c.opacity.IsDefined) (f.extract values) := by
  have hsplit : Meets (Refusal True True) _ (splitChannels values) := splitChannels_meets h
  apply (hsplit.mono (fun _ _ => trivial) fun _ h => h).bind
  intro split hsplit
  apply (Meets.self _).bind
  intro channels _
  exact (alphaNumber_isDefined hsplit.2).bind fun _ halpha => halpha

theorem length_splitSlash {values before after : List ComponentValue}
    (h : splitSlash values = (before, some after)) :
    before.length + after.length + 1 = values.length := by
  unfold splitSlash at h
  obtain ⟨rfl, hafter⟩ := Prod.mk.inj h
  have hdrop := List.length_drop (i := (values.takeWhile fun v => !v.isDelim '/').length) (l := values)
  cases hcut : values.drop (values.takeWhile fun v => !v.isDelim '/').length with
  | nil =>
    rw [hcut] at hafter
    cases hafter
  | cons slash others =>
    rw [hcut] at hafter hdrop
    obtain rfl : others = after := Option.some.inj hafter
    rw [List.length_cons] at hdrop
    omega

/-- Three values are three channels, and no alpha, or they are refused. -/
theorem splitChannels_three {values : List ComponentValue} (h : values.length = 3) :
    Meets (fun _ => True) (fun split => split.2 = none) (splitChannels values) := by
  have hlength : (substantial values).length ≤ 3 := h ▸ List.length_filter_le _ _
  have hsplit : Meets (fun _ => True) (fun split => split.alpha = none) (splitAlpha 3 values) := by
    unfold splitAlpha
    dsimp only
    split
    · trivial
    · split
      · next channels alpha hslash =>
        have hcut := length_splitSlash hslash
        have hfew : ¬ (channels.length : Int) = 3 := by
          rw [List.length_singleton] at hcut
          omega
        show Meets _ _ (if _ then _ else _)
        rw [if_neg hfew]
        exact reject_meets _ fun _ => trivial
      · trivial
      · split
        · trivial
        · split
          · trivial
          · show Meets _ _ (if _ then _ else _)
            split
            · exact List.getElem?_eq_none hlength
            · trivial
  apply hsplit.bind
  intro split hnone
  split
  · exact hnone
  · trivial

namespace Color

theorem toXyz_opacity (c : Color) :
    Meets (fun _ => True) (fun d => HasOpacity d.opacity c) c.toXyz := by
  have halpha := alphaByte_clamp_unpackAlpha c.alpha
  exact (Meets.self _).bind fun red _ => (Meets.self _).bind fun green _ =>
    (Meets.self _).bind fun blue _ => (Coordinates.convert_opacity _ _).weaken fun d hd => hd ▸ halpha

theorem originToXyz_opacity {v : ComponentValue} {c : Color} (hv : v.OfNumbers Number.IsDefined)
    (hc : (ofValue v).result = .ok c) :
    Meets (fun _ => True) (fun xyz => HasOpacity xyz.opacity c) (originToXyz v).result := by
  have hplain (w : ComponentValue) (hw : (ofPlain w).result = .ok c) :
      Meets (fun _ => True) (fun xyz => HasOpacity xyz.opacity c)
        (do Outcome.ofParsed (toXyz (← ofPlain w))).result := by
    rw [Outcome.bind_of_ok hw]
    exact (toXyz_opacity c).parsed fun _ _ => trivial
  cases v with
  | token | block => exact hplain _ hc
  | function name openSource values closeSource =>
    unfold originToXyz
    unfold ofValue at hc
    dsimp only at hc ⊢
    split
    · next f hname =>
      rw [hname] at hc
      obtain ⟨coordinates, hextract, hpack⟩ := exists_of_bind_eq_ok hc
      have hdefined := (f.extract_isDefined fun w hw => hv.inside hw).of_ok hextract
      have hpacked : Meets (fun _ => True) (HasOpacity coordinates.opacity)
          (f.pack coordinates).parsed := (f.pack_opacity hdefined).parsed fun _ _ => trivial
      rw [hextract]
      apply ((f.toXyz_opacity coordinates).parsed fun _ _ => trivial).weaken
      intro xyz hxyz
      rw [hxyz]
      exact hpacked.of_ok hpack
    · trivial

theorem ofRelativeChannels_opacity (space : ColorSpace) (origin : Coordinates)
    {values : List ComponentValue} (h : values.length = 3) :
    Meets (fun _ => True) (HasOpacity origin.opacity) (ofRelativeChannels space origin values) := by
  unfold ofRelativeChannels
  apply (splitChannels_three h).bind
  rintro ⟨channels, alpha⟩ rfl
  exact (Meets.self _).bind fun _ _ => (Meets.self _).bind fun _ _ => (Meets.self _).bind fun _ _ =>
    (space.pack_opacity _).parsed fun _ _ => trivial

theorem relative_alpha {origin : ComponentValue} {values : List ComponentValue} {c : Color}
    (space : ColorSpace) (horigin : origin.OfNumbers Number.IsDefined)
    (hc : (ofValue origin).result = .ok c) (h : values.length = 3) :
    Meets (fun _ => True) (fun d => d.alpha = c.alpha) (relative space origin values).result := by
  apply (originToXyz_opacity horigin hc).result_bind
  intro xyz hxyz
  have hcoordinates : Meets (fun _ => True) (fun d => d.opacity = xyz.opacity)
      (space.ofXyz xyz).parsed := (xyz.convert_opacity _).parsed fun _ _ => trivial
  apply hcoordinates.bind
  intro coordinates hopacity
  apply (ofRelativeChannels_opacity space coordinates h).weaken
  intro d hd
  rw [hopacity, HasOpacity, hxyz] at hd
  exact (Except.ok.inj hd).symm

theorem toNat_mod (c : Color) : c.toNat % 256 = c.alpha.toNat := by
  have := c.alpha.toNat_lt
  unfold toNat
  omega

theorem exists_pack_opacity (a : Double) : ∃ byte : UInt8,
    ∀ (space : ColorSpace) (c₁ c₂ c₃ : Double), ∃ color,
      space.pack ⟨⟨.double c₁, .double c₂, .double c₃⟩, some (.double a)⟩ = .ok color ∧
        color.toNat < 2 ^ 32 ∧ color.toNat % 256 = byte.toNat := by
  have hnone (fault : Fault) (h : Overflow True False fault) : False := h.2 trivial
  have hpack (space : ColorSpace) (c₁ c₂ c₃ : Double) : ∃ color,
      space.pack ⟨⟨.double c₁, .double c₂, .double c₃⟩, some (.double a)⟩ = .ok color ∧
        HasOpacity (.double a) color := by
    have hfits : Coordinates.Fits True (.bits 1010) (.bits 1010)
        ⟨⟨.double c₁, .double c₂, .double c₃⟩, some (.double a)⟩ :=
      ⟨⟨Number.fits_double _ _, Number.fits_double _ _, Number.fits_double _ _⟩,
        Number.fits_double _ _⟩
    obtain ⟨color, hcolor, -⟩ := ((space.pack_meets hfits).mono hnone fun _ h => h).exists_ok
    exact ⟨color, hcolor, (space.pack_opacity _).of_ok hcolor⟩
  obtain ⟨first, -, hfirst⟩ := hpack .srgb a a a
  refine ⟨first.alpha, fun space c₁ c₂ c₃ => ?_⟩
  obtain ⟨color, hcolor, hopacity⟩ := hpack space c₁ c₂ c₃
  have halpha : first.alpha = color.alpha := Except.ok.inj (hfirst.symm.trans hopacity)
  exact ⟨color, hcolor, color.toNat_lt, by rw [toNat_mod, halpha]⟩

theorem ofColorFunction_relative {values channels : List ComponentValue}
    {keyword origin space : ComponentValue}
    (h : substantial values = keyword :: origin :: space :: channels)
    (hfrom : keyword.isKeyword "from") : ofColorFunction values =
      (Outcome.ofParsed (spaceOf space) >>= fun space => relative space origin channels) := by
  rw [ofColorFunction, h]
  exact if_pos hfrom

theorem ofValue_color {name openSource closeSource : String} {values : List ComponentValue}
    (h : lowercase name = "color") :
    ofValue (.function name openSource values closeSource) = ofColorFunction values := by
  rw [ofValue, h]
  rfl

theorem exists_of_ofText {text : String} {c : Color} (h : (ofText text).result = .ok c) :
    ∃ v : ComponentValue, (TokenStream.value.run (lexText text)).result = .ok v ∧
      v.OfNumbers Number.IsDefined ∧ (ofValue v).result = .ok c := by
  obtain ⟨tokens, htokens, h⟩ := Outcome.exists_of_bind h
  obtain ⟨v, hv, h⟩ := Outcome.exists_of_bind h
  have hread : TokenStream.ReadsFrom [text] (.ofTokens tokens) := .tokens (by simpa using htokens)
  have hsame := TokenStream.ReadsFrom.text.result_eq TokenStream.value_relays hread
  rw [show String.join [text] = text by simp] at hsame
  have hdefined : ∀ t ∈ tokens, t.kind.OfNumber Number.IsDefined := by
    rw [← TokenStream.tokens_of_readAll htokens]
    exact lex_isDefined _ _
  have hmade : Meets (fun _ => True) (MadeOf tokens) _ :=
    TokenStream.value_meets (fun _ => trivial) tokens
  exact ⟨v, hsame.trans hv, ofNumbers_of_madeOf hdefined (hmade.of_ok hv), h⟩

/-- The alpha of a color in a space is that of the alpha given, whatever the channels are; and that
of a relative color without an alpha is that of its origin. -/
theorem alpha_untouched_by_conversion :
    (∀ a : Double, ∃ byte : UInt8, ∀ (space : ColorSpace) (c₁ c₂ c₃ : Double), ∃ color,
      space.pack ⟨⟨.double c₁, .double c₂, .double c₃⟩, some (.double a)⟩ = .ok color ∧
        color.toNat < 2 ^ 32 ∧ color.toNat % 256 = byte.toNat) ∧
    ∀ (text name openSource closeSource : String)
      (values : List ComponentValue) (keyword origin space e₁ e₂ e₃ : ComponentValue)
      (color relative : Color),
      (TokenStream.value.run (lexText text)).result =
        .ok (.function name openSource values closeSource) →
      lowercase name = "color" →
      substantial values = [keyword, origin, space, e₁, e₂, e₃] → keyword.isKeyword "from" →
      (ofValue origin).result = .ok color → (ofText text).result = .ok relative →
      relative.toNat % 256 = color.toNat % 256 := by
  refine ⟨exists_pack_opacity, ?_⟩
  intro text name openSource closeSource values keyword origin space e₁ e₂ e₃ color relative
    hread hname hvalues hfrom horigin htext
  obtain ⟨v, hv, hnumbers, hcolor⟩ := exists_of_ofText htext
  obtain rfl := Except.ok.inj (hread.symm.trans hv)
  have hinside : origin ∈ values := by
    have hmem : origin ∈ substantial values := by simp [hvalues]
    exact List.mem_of_mem_filter hmem
  rw [ofValue_color hname, ofColorFunction_relative hvalues hfrom] at hcolor
  obtain ⟨space, -, hcolor⟩ := Outcome.exists_of_bind hcolor
  have hlength : [e₁, e₂, e₃].length = 3 := rfl
  have halpha := relative_alpha space (hnumbers.inside hinside) horigin hlength
  rw [toNat_mod, toNat_mod, halpha.of_ok hcolor]

/-- An alpha given as a percentage, under channels that do not come from the origin. -/
theorem alpha_untouched_half :
    (ofText "color(from rgb(1 2 3 / 50%) srgb 1 0 0)").result = .ok ⟨255, 0, 0, 128⟩ ∧
      (⟨255, 0, 0, 128⟩ : Color).toNat % 256 = (⟨1, 2, 3, 128⟩ : Color).toNat % 256 := by
  have htext : (ofText "color(from rgb(1 2 3 / 50%) srgb 1 0 0)").result = .ok ⟨255, 0, 0, 128⟩ := by
    decide +kernel
  let space : ComponentValue := .token ⟨.whitespace, " "⟩
  let word (name : String) : ComponentValue := .token ⟨.ident name, name⟩
  let digit (n : Nat) : ComponentValue := .token ⟨.number (.integer n), Nat.repr n⟩
  let origin : ComponentValue := .function "rgb" "rgb(" [digit 1, space, digit 2, space, digit 3,
    space, .token ⟨.delim '/', "/"⟩, space, .token ⟨.percentage 50, "50%"⟩] ")"
  let values : List ComponentValue := [word "from", space, origin, space, word "srgb", space,
    digit 1, space, digit 0, space, digit 0]
  have hread : (TokenStream.value.run (lexText "color(from rgb(1 2 3 / 50%) srgb 1 0 0)")).result =
      .ok (.function "color" "color(" values ")") := by decide +kernel
  have horigin : (ofValue origin).result = .ok ⟨1, 2, 3, 128⟩ := by decide +kernel
  exact ⟨htext, alpha_untouched_by_conversion.2 _ _ _ _ values (word "from") origin (word "srgb")
    (digit 1) (digit 0) (digit 0) _ _ hread (by decide +kernel) (by decide +kernel)
    (by decide +kernel) horigin htext⟩

end Color

end StyleValue
