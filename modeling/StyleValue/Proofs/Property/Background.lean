import StyleValue.Proofs.Image.Reporting
import StyleValue.Proofs.Session
import StyleValue.Property.Value

/-!
# Background images

The values of `background-image` are handled one after the other, until one fails. Only a URL is
registered. So what is registered are the URLs among the values that were handled, whether that was
all of them or not, and a cache is left with each of its URLs once.
-/

set_option autoImplicit false

namespace StyleValue

open Outcome

def ComponentValue.url? : ComponentValue → Option String
  | .token ⟨.url address, _⟩ => some address
  | _ => none

def ComponentValue.isFunction : ComponentValue → Bool
  | .function .. => true
  | _ => false

def Image.url? : Image → Option String
  | .url address => some address
  | .linear _ | .radial _ => none

def leftOut (v : ComponentValue) : List Event := [.report (.unsupportedImage v)]

inductive Layer (v : ComponentValue) : List Event → Parsed (Option Image) → Prop
  | url (address source : String) (hv : v = .token ⟨.url address, source⟩) :
    Layer v [.register address] (.ok (some (.url address)))
  | gradient (name openSource closeSource : String) (values : List ComponentValue)
    (hv : v = .function name openSource values closeSource) (f : ImageFunction)
    (hname : ImageFunction.ofName? (lowercase name) = some f)
    (hevents : (f.apply values).Emits fun e => ∃ d, e = .report d) (image : Image)
    (hresult : (f.apply values).result = .ok image) (himage : image.isLinear ∨ image.isRadial) :
    Layer v (f.apply values).events (.ok (some image))
  | badGradient (name openSource closeSource : String) (values : List ComponentValue)
    (hv : v = .function name openSource values closeSource) (f : ImageFunction)
    (hname : ImageFunction.ofName? (lowercase name) = some f)
    (hevents : (f.apply values).Emits fun e => ∃ d, e = .report d) (failure : Failure)
    (hresult : (f.apply values).result = .error failure) :
    Layer v (f.apply values).events (.error failure)
  | otherFunction (name openSource closeSource : String) (values : List ComponentValue)
    (hv : v = .function name openSource values closeSource)
    (hname : ImageFunction.ofName? (lowercase name) = none) : Layer v (leftOut v) (.ok none)
  | none (hv : v.isKeyword "none") : Layer v (leftOut v) (.ok none)
  | other (hurl : v.url? = Option.none) (hnone : ¬ v.isKeyword "none")
    (hfunction : ¬ v.isFunction) :
    Layer v [] (.error (.unsupportedImage (.value v.typeName)))

inductive Layers : List ComponentValue → List Event → Parsed (List Image) → Prop
  | nil : Layers [] [] (.ok [])
  | cons (v : ComponentValue) (vs : List ComponentValue) (events others : List Event)
    (image : Option Image) (result : Parsed (List Image)) (hv : Layer v events (.ok image))
    (hvs : Layers vs others result) :
    Layers (v :: vs) (events ++ others) (result.map (image.toList ++ ·))
  | fail (v : ComponentValue) (vs : List ComponentValue) (events : List Event) (failure : Failure)
    (hv : Layer v events (.error failure)) : Layers (v :: vs) events (.error failure)

theorem ImageFunction.isGradient_of_apply {f : ImageFunction} {values : List ComponentValue}
    {image : Image} (h : (f.apply values).result = .ok image) :
    image.isLinear ∨ image.isRadial := by
  cases f with
  | linear | vendorLinear =>
    obtain ⟨gradient, -, hgradient⟩ := Outcome.exists_of_bind h
    cases hgradient
    exact .inl rfl
  | radial | vendorRadial =>
    obtain ⟨gradient, -, hgradient⟩ := Outcome.exists_of_bind h
    cases hgradient
    exact .inr rfl
  | points =>
    obtain ⟨gradient, -, hgradient⟩ := Outcome.exists_of_bind h
    cases gradient with
    | inl gradient =>
      cases hgradient
      exact .inl rfl
    | inr gradient =>
      cases hgradient
      exact .inr rfl

namespace Background

def layer (v : ComponentValue) : Outcome (Option Image) := do
  if v.isImage then return some (← Image.ofValue v)
  Outcome.report (.unsupportedImage v)
  return none

theorem backgroundImages_eq (values : List ComponentValue) :
    backgroundImages values =
      if (ComponentValue.substantial values).head?.any (·.isKeyword "none") then pure []
      else do return (← (ComponentValue.substantial values).mapM layer).filterMap id := rfl

theorem layer_of_isImage {v : ComponentValue} (h : v.isImage = true) :
    layer v = (do return some (← Image.ofValue v) : Outcome (Option Image)) := if_pos h

theorem layer_of_not_isImage {v : ComponentValue} (h : v.isImage = false) :
    layer v = ⟨leftOut v, .ok none⟩ := by
  rw [layer, h]
  rfl

theorem layer_other {v : ComponentValue} (hurl : v.url? = none) (hfunction : ¬ v.isFunction) :
    layer v = if v.isKeyword "none" then ⟨leftOut v, .ok none⟩
      else Outcome.fail (.unsupportedImage (.value v.typeName)) := by
  have himage : v.isImage = !v.isKeyword "none" := by
    cases v with
    | function => exact absurd rfl hfunction
    | token | block => rfl
  cases hnone : v.isKeyword "none" with
  | true => exact layer_of_not_isImage (by rw [himage, hnone]; rfl)
  | false =>
    have hvalue : Image.ofValue v = Outcome.fail (.unsupportedImage (.value v.typeName)) := by
      unfold Image.ofValue
      split
      · cases hurl
      · exact absurd rfl hfunction
      · rfl
    rw [layer_of_isImage (by rw [himage, hnone]; rfl), hvalue]
    rfl

theorem layer_function {name openSource closeSource : String} {values : List ComponentValue}
    {f : ImageFunction} (hname : ImageFunction.ofName? (lowercase name) = some f) :
    layer (.function name openSource values closeSource) =
      ⟨(f.apply values).events, (f.apply values).result.map some⟩ := by
  rw [← bind_pure_eq, layer_of_isImage (by simp [ComponentValue.isImage, hname]), Image.ofValue,
    hname]

theorem layer_spec_function (name openSource closeSource : String) (values : List ComponentValue) :
    Layer (.function name openSource values closeSource)
      (layer (.function name openSource values closeSource)).events
      (layer (.function name openSource values closeSource)).result := by
  cases hname : ImageFunction.ofName? (lowercase name) with
  | none =>
    rw [layer_of_not_isImage (by simp [ComponentValue.isImage, hname])]
    exact .otherFunction name openSource closeSource values rfl hname
  | some f =>
    have hevents := f.emits_apply_report values
    rw [layer_function hname]
    cases hresult : (f.apply values).result with
    | ok image =>
      exact .gradient name openSource closeSource values rfl f hname hevents image hresult
        (ImageFunction.isGradient_of_apply hresult)
    | error failure =>
      exact .badGradient name openSource closeSource values rfl f hname hevents failure hresult

theorem layer_spec (v : ComponentValue) : Layer v (layer v).events (layer v).result := by
  by_cases hfunction : v.isFunction
  · cases v with
    | function => exact layer_spec_function _ _ _ _
    | token | block => cases hfunction
  · cases hurl : v.url? with
    | some address =>
      unfold ComponentValue.url? at hurl
      split at hurl
      · next source => exact .url _ source rfl
      · cases hurl
    | none =>
      rw [layer_other hurl hfunction]
      split
      · next hnone => exact .none hnone
      · next hnone => exact .other hurl hnone hfunction

theorem layers_spec (vs : List ComponentValue) :
    Layers vs (vs.mapM layer).events
      ((vs.mapM layer).result.map fun images => images.filterMap id) := by
  induction vs with
  | nil => exact .nil
  | cons v vs ih =>
    have hv := layer_spec v
    rw [List.mapM_cons]
    cases hresult : (layer v).result with
    | ok image =>
      rw [hresult] at hv
      rw [bind_of_ok hresult, bind_pure_eq]
      have hcons := Layers.cons v vs _ _ image _ hv ih
      cases hothers : (vs.mapM layer).result with
      | ok images =>
        rw [hothers] at hcons
        cases image <;> exact hcons
      | error failure =>
        rw [hothers] at hcons
        exact hcons
    | error failure =>
      rw [hresult] at hv
      rw [bind_of_error hresult]
      exact .fail v vs _ failure hv

end Background

def registrations (events : List Event) : List String :=
  (⟨events, .ok ()⟩ : Outcome Unit).registered

theorem registrations_append (events others : List Event) :
    registrations (events ++ others) = registrations events ++ registrations others :=
  List.filterMap_append

theorem ComponentValue.url?_of_isKeyword {v : ComponentValue} {name : String}
    (h : v.isKeyword name) : v.url? = none := by
  unfold url?
  split
  · simp [isKeyword, keyword?] at h
  · rfl

theorem Layer.registrations_of_ok {v : ComponentValue} {events : List Event} {image : Option Image}
    (h : Layer v events (.ok image)) :
    registrations events = v.url?.toList ∧ v.url? = image.bind Image.url? := by
  cases h with
  | url address source hv =>
    subst hv
    exact ⟨rfl, rfl⟩
  | gradient name openSource closeSource values hv f hname hevents image hresult himage =>
    subst hv
    refine ⟨hevents.registered_eq_nil, ?_⟩
    cases image with
    | url => rcases himage with himage | himage <;> cases himage
    | linear | radial => rfl
  | otherFunction name openSource closeSource values hv hname =>
    subst hv
    exact ⟨rfl, rfl⟩
  | none hv =>
    rw [ComponentValue.url?_of_isKeyword hv]
    exact ⟨rfl, rfl⟩

/-- If all values are handled, what is registered are their URLs, which are those of the images. -/
theorem Layers.registrations_of_ok {vs : List ComponentValue} {events : List Event}
    {result : Parsed (List Image)} (h : Layers vs events result) :
    ∀ images, result = .ok images →
      registrations events = vs.filterMap ComponentValue.url? ∧
        registrations events = images.filterMap Image.url? := by
  induction h with
  | nil =>
    rintro images ⟨⟩
    exact ⟨rfl, rfl⟩
  | cons v vs events others image result hv hvs ih =>
    intro images himages
    cases result with
    | ok more =>
      obtain rfl : image.toList ++ more = images := Except.ok.inj himages
      obtain ⟨hmore, hmoreImages⟩ := ih more rfl
      obtain ⟨hfirst, hurl⟩ := hv.registrations_of_ok
      rw [registrations_append, hfirst]
      constructor
      · rw [hmore, List.filterMap_cons]
        cases v.url? <;> rfl
      · rw [hmoreImages, hurl, List.filterMap_append]
        cases image with
        | none => rfl
        | some image => cases hi : image.url? <;> simp [hi]
    | error failure => cases himages
  | fail => rintro images ⟨⟩

theorem Layers.registrations_of_error {vs : List ComponentValue} {events : List Event}
    {result : Parsed (List Image)} (h : Layers vs events result) :
    ∀ failure, result = .error failure →
      ∃ front v back, vs = front ++ v :: back ∧
        (∀ u ∈ front, ∃ events image, Layer u events (.ok image)) ∧
        (∃ events, Layer v events (.error failure)) ∧
        registrations events = front.filterMap ComponentValue.url? := by
  induction h with
  | nil => rintro failure ⟨⟩
  | cons v vs events others image result hv hvs ih =>
    intro failure hfailure
    cases result with
    | ok more => cases hfailure
    | error cause =>
      obtain rfl : cause = failure := Except.error.inj hfailure
      obtain ⟨front, w, back, rfl, hfront, hw, hothers⟩ := ih cause rfl
      refine ⟨v :: front, w, back, rfl, ?_, hw, ?_⟩
      · exact List.forall_mem_cons.2 ⟨⟨events, image, hv⟩, hfront⟩
      · rw [registrations_append, hothers, hv.registrations_of_ok.1, List.filterMap_cons]
        cases v.url? <;> rfl
  | fail v vs events failure hv =>
    rintro _ ⟨⟩
    refine ⟨[], v, vs, rfl, by simp, ⟨events, hv⟩, ?_⟩
    cases hv with
    | badGradient name openSource closeSource values hv f hname hevents =>
      exact hevents.registered_eq_nil
    | other => rfl

def SaysNone (vs : List ComponentValue) : Prop := vs = [] ∨ ∃ v ∈ vs.head?, v.isKeyword "none"

theorem backgroundImages_of_saysNone {values : List ComponentValue}
    (h : SaysNone (ComponentValue.substantial values)) : backgroundImages values = pure [] := by
  rw [Background.backgroundImages_eq]
  rcases h with hnil | ⟨v, hv, hnone⟩
  · rw [hnil]
    rfl
  · rw [hv]
    exact if_pos hnone

theorem backgroundImages_layers {values : List ComponentValue}
    (h : ¬ SaysNone (ComponentValue.substantial values)) :
    Layers (ComponentValue.substantial values) (backgroundImages values).events
      (backgroundImages values).result := by
  have hfront : ¬ (ComponentValue.substantial values).head?.any (·.isKeyword "none") := by
    rw [Option.any_eq_true]
    rintro ⟨v, hv, hnone⟩
    exact h (.inr ⟨v, hv, hnone⟩)
  rw [Background.backgroundImages_eq, if_neg hfront, bind_pure_eq]
  exact Background.layers_spec _

/-- Values are handled in order. If all are, their URLs are registered, and else those before the
one that fails. Over any sequence of parses a cache has each URL registered with it once, in the
order of first registration. -/
theorem backgroundImages_registers :
    (∀ values, SaysNone (ComponentValue.substantial values) →
      backgroundImages values = pure []) ∧
    (∀ values, ¬ SaysNone (ComponentValue.substantial values) →
      Layers (ComponentValue.substantial values) (backgroundImages values).events
        (backgroundImages values).result ∧
      (∀ images, (backgroundImages values).result = .ok images →
        (backgroundImages values).registered =
          (ComponentValue.substantial values).filterMap ComponentValue.url? ∧
        (backgroundImages values).registered = images.filterMap Image.url?) ∧
      ∀ failure, (backgroundImages values).result = .error failure →
        ∃ front v back, ComponentValue.substantial values = front ++ v :: back ∧
          (∀ u ∈ front, ∃ events image, Layer u events (.ok image)) ∧
          (∃ events, Layer v events (.error failure)) ∧
          (backgroundImages values).registered = front.filterMap ComponentValue.url?) ∧
    ∀ (parses : List (Context × List ComponentValue)) (name : String),
      let operations := parses.map fun parse => (parse.1, backgroundImages parse.2)
      let recorded := (({} : Session).performAll operations).cache name
      recorded.calls = Session.registeredWith name operations ∧
        recorded.cache.urls.Nodup ∧
        (∀ url, recorded.cache.contains url ↔ url ∈ recorded.calls) ∧
        recorded.cache.urls.Pairwise
          fun u v => recorded.calls.idxOf u < recorded.calls.idxOf v := by
  refine ⟨fun values => backgroundImages_of_saysNone, ?_, ?_⟩
  · intro values h
    have hlayers := backgroundImages_layers h
    exact ⟨hlayers, hlayers.registrations_of_ok, hlayers.registrations_of_error⟩
  · intro parses name operations recorded
    obtain ⟨hcalls, himages⟩ := (Session.records_empty name).performAll operations
    have hrecorded : recorded.calls = Session.registeredWith name operations := hcalls
    refine ⟨hrecorded, himages.nodup, fun url => ?_, ?_⟩
    · rw [hrecorded]
      exact List.contains_iff_mem.trans (himages.mem_iff url)
    · rw [hrecorded]
      exact himages.ordered

/-- No image, three of which two are the same, and one before a value that is none. -/
theorem backgroundImages_registers_urls :
    let url (address : String) : ComponentValue := .ofKind (.url address)
    let values := [url "a", .ofKind .comma, url "b", .ofKind .comma, url "a"]
    let broken := [url "a", .ofKind .comma, .ofKind .colon, .ofKind .comma, url "b"]
    backgroundImages [.ofKind .comma, .ofKind (.ident "None"), url "a"] = pure [] ∧
      (backgroundImages values).registered = ["a", "b", "a"] ∧
      (∃ front v back, ComponentValue.substantial broken = front ++ v :: back ∧
        (backgroundImages broken).registered = front.filterMap ComponentValue.url?) := by
  intro url values broken
  have hvalues : ¬ SaysNone (ComponentValue.substantial values) := by
    rintro (h | ⟨v, hv, h⟩)
    · cases h
    · cases hv
      cases h
  have hbroken : ¬ SaysNone (ComponentValue.substantial broken) := by
    rintro (h | ⟨v, hv, h⟩)
    · cases h
    · cases hv
      cases h
  have himages : (backgroundImages values).result = .ok [.url "a", .url "b", .url "a"] := rfl
  have hfailure : (backgroundImages broken).result =
      .error (.unsupportedImage (.value "colon")) := rfl
  refine ⟨backgroundImages_registers.1 _ (.inr ⟨_, rfl, by decide +kernel⟩), ?_, ?_⟩
  · exact ((backgroundImages_registers.2.1 values hvalues).2.1 _ himages).2
  · obtain ⟨front, v, back, hsplit, -, -, hregistered⟩ :=
      (backgroundImages_registers.2.1 broken hbroken).2.2 _ hfailure
    exact ⟨front, v, back, hsplit, hregistered⟩

end StyleValue
