import StyleValue.Proofs.Gradient.Shape
import StyleValue.Proofs.Outcome

/-!
# Positions of vendors' radial gradients

The vendors' function reads a position from its first argument and a shape from its second, and
takes each for a stop if it is nothing of the kind. So a position may be left out in front of stops.
In front of a shape it may not: the shape is then the first argument, where none is looked for, and
makes a stop of an unknown color.
-/

set_option autoImplicit false

namespace StyleValue

namespace RadialGradient

def NamesShape (v : ComponentValue) : Prop :=
  (EndingShape.shape? v).isSome ∨ (EndingShape.extent? RadialExtent.ofVendorName? v).isSome

structure StartsNoShape (v : ComponentValue) : Prop where
  not_at : v.isKeyword "at" = false
  not_part : EndingShape.add? RadialExtent.ofVendorName? {} v = none

theorem ofArgument_of_startsNoShape {a : Argument} (h : StartsNoShape a.first) :
    EndingShape.ofArgument RadialExtent.ofVendorName? a = .ok none := by
  rw [EndingShape.ofArgument, h.not_at, h.not_part]
  rfl

/-- The names of shapes and extents stand for no color and no place. -/
theorem names_of_shape {name : String}
    (h : (RadialShape.ofName? name).isSome ∨ (RadialExtent.ofVendorName? name).isSome) :
    Color.ofName? name = none ∧ PositionKeyword.ofName? name = none := by
  rcases h with h | h
  · unfold RadialShape.ofName? at h
    split at h <;> first | decide +kernel | cases h
  · unfold RadialExtent.ofVendorName? RadialExtent.ofName? at h
    repeat' split at h
    all_goals first | decide +kernel | cases h

theorem exists_name {v : ComponentValue} (h : NamesShape v) :
    ∃ name, v.kind? = some (.ident name) ∧ Color.ofName? (lowercase name) = none ∧
      startsPosition v = false := by
  unfold NamesShape EndingShape.shape? EndingShape.extent? at h
  cases hkeyword : v.keyword? with
  | none =>
    rw [hkeyword] at h
    rcases h with h | h <;> cases h
  | some name =>
    rw [hkeyword, Option.bind_some, Option.bind_some] at h
    obtain ⟨hcolor, hposition⟩ := names_of_shape h
    obtain ⟨written, source, rfl, rfl⟩ := ComponentValue.exists_ident_of_keyword? hkeyword
    refine ⟨written, rfl, hcolor, ?_⟩
    rw [startsPosition, PositionComponent.ofValue?, hkeyword, Option.bind_some, hposition]
    rfl

theorem vendorFirst_center {center : Argument}
    (h : center.toList.map ComponentValue.keyword? = [some "center"]) :
    vendorFirst center = pure (some ⟨.half, .half⟩, []) := by
  obtain ⟨v, others⟩ := center
  obtain ⟨hv, hothers⟩ := List.cons.inj h
  obtain rfl := List.map_eq_nil_iff.1 hothers
  have hcenter : PositionComponent.ofValue? v = some ⟨.half, some .center⟩ := by
    rw [PositionComponent.ofValue?, hv]
    rfl
  have hposition : Position.ofArgument ⟨v, []⟩ = .ok ⟨.half, .half⟩ := by
    rw [Position.ofArgument, Position.component, hcenter]
    rfl
  rw [vendorFirst, startsPosition, hcenter, hposition]
  rfl

theorem vendorFirst_stop {a : Argument} (h : startsPosition a.first = false) :
    vendorFirst a = do return (none, [← ColorStop.ofArgument a]) := by
  rw [vendorFirst, h]
  rfl

theorem vendorSecond_shape {a : Argument} {e : EndingShape}
    (h : EndingShape.ofArgument RadialExtent.ofVendorName? a = .ok (some e)) :
    vendorSecond a = pure (e, []) := by
  rw [vendorSecond, h]
  rfl

theorem vendorSecond_stop {a : Argument} (h : StartsNoShape a.first) :
    vendorSecond a = do return ({}, [← ColorStop.ofArgument a]) := by
  rw [vendorSecond, ofArgument_of_startsNoShape h]
  rfl

/-- The name of a shape is that of no color, and the stop is transparent. -/
theorem ofArgument_shape {a : Argument} {name : String}
    (hname : a.first.kind? = some (.ident name)) (hcolor : Color.ofName? (lowercase name) = none) :
    ColorStop.ofArgument a = do
      Outcome.report (.unknownColorName name)
      return ⟨Color.transparent, a.others.head?.bind LengthPercentage.ofValue?⟩ := by
  have hplain : Color.ofValue a.first = Color.ofPlain a.first := by
    rw [Color.ofValue]
    rintro name openSource values closeSource h
    rw [h] at hname
    cases hname
  rw [ColorStop.ofArgument, hplain, Color.ofPlain, hname]
  simp only [hcolor, bind_assoc, pure_bind]

theorem ofVendorArguments_without_position {center stop : Argument} {stops : List Argument}
    (hcenter : center.toList.map ComponentValue.keyword? = [some "center"])
    (hposition : startsPosition stop.first = false) (hstop : StartsNoShape stop.first)
    (hnext : ∀ a, stops.head? = some a → StartsNoShape a.first) :
    ofVendorArguments (stop :: stops) = do
      let g ← ofVendorArguments (center :: stop :: stops)
      return { g with position := none } := by
  cases stops with
  | nil =>
    simp only [ofVendorArguments, vendorFirst_center hcenter, vendorFirst_stop hposition,
      vendorSecond_stop hstop, ColorStop.ofArguments, bind_assoc, pure_bind, List.mapM_nil,
      List.nil_append, List.append_nil]
    rfl
  | cons next stops =>
    simp only [ofVendorArguments, vendorFirst_center hcenter, vendorFirst_stop hposition,
      vendorSecond_stop hstop, vendorSecond_stop (hnext next rfl), ColorStop.ofArguments,
      bind_assoc, pure_bind, List.mapM_cons, List.nil_append]
    rfl

theorem ofVendorArguments_position_shape {center shape : Argument} {e : EndingShape}
    (hcenter : center.toList.map ComponentValue.keyword? = [some "center"])
    (he : EndingShape.ofArgument RadialExtent.ofVendorName? shape = .ok (some e))
    (stop : Argument) (stops : List Argument) :
    ofVendorArguments (center :: shape :: stop :: stops) = do
      return ofShape e (some ⟨.half, .half⟩) (← ColorStop.ofArguments (stop :: stops)) := by
  simp only [ofVendorArguments, vendorFirst_center hcenter, vendorSecond_shape he, pure_bind,
    List.nil_append]

theorem ofVendorArguments_shape {shape stop : Argument} {stops : List Argument} {name : String}
    (hname : shape.first.kind? = some (.ident name))
    (hcolor : Color.ofName? (lowercase name) = none)
    (hposition : startsPosition shape.first = false) (hstop : StartsNoShape stop.first) :
    ofVendorArguments (shape :: stop :: stops) = do
      Outcome.report (.unknownColorName name)
      return ofShape {} none
        (⟨Color.transparent, shape.others.head?.bind LengthPercentage.ofValue?⟩ ::
          (← ColorStop.ofArguments (stop :: stops))) := by
  simp only [ofVendorArguments, vendorFirst_stop hposition, vendorSecond_stop hstop,
    ofArgument_shape hname hcolor, ColorStop.ofArguments, bind_assoc, pure_bind, List.mapM_cons]
  rfl

/-- A position in front of stops may be left out: nothing but the position changes. In front of a
shape it makes the shape be read; left out, the shape is a stop in front of the others, of an
unknown color that is reported and taken to be transparent, and the gradient has the shape and size
of one without any. The two fail alike, if a stop does. -/
theorem vendor_position_before_shape {center stop : Argument} {stops : List Argument}
    (hcenter : center.toList.map ComponentValue.keyword? = [some "center"])
    (hstop : StartsNoShape stop.first) :
    (∀ values positioned, startsPosition stop.first = false →
      (∀ a, stops.head? = some a → StartsNoShape a.first) →
      Argument.split values = .ok (stop :: stops) →
      Argument.split positioned = .ok (center :: stop :: stops) →
      ofVendorValues values = do
        let g ← ofVendorValues positioned
        return { g with position := none }) ∧
    ∀ values positioned shape e, NamesShape (Argument.first shape) →
      EndingShape.ofArgument RadialExtent.ofVendorName? shape = .ok (some e) →
      Argument.split values = .ok (shape :: stop :: stops) →
      Argument.split positioned = .ok (center :: shape :: stop :: stops) →
      (ofVendorValues positioned = do
        return ofShape e (some ⟨.half, .half⟩) (← ColorStop.ofArguments (stop :: stops))) ∧
      ∃ name, shape.first.kind? = some (.ident name) ∧ ofVendorValues values = do
        Outcome.report (.unknownColorName name)
        let g ← ofVendorValues positioned
        return ofShape {} none
          (⟨Color.transparent, shape.others.head?.bind LengthPercentage.ofValue?⟩ :: g.stops) := by
  refine ⟨fun values positioned hposition hnext hvalues hpositioned => ?_,
    fun values positioned shape e hshape he hvalues hpositioned => ?_⟩
  · rw [ofVendorValues, ofVendorValues, Outcome.bind_lift_of_ok hvalues,
      Outcome.bind_lift_of_ok hpositioned]
    exact ofVendorArguments_without_position hcenter hposition hstop hnext
  · obtain ⟨name, hname, hcolor, hposition⟩ := exists_name hshape
    have hread := ofVendorArguments_position_shape hcenter he stop stops
    rw [ofVendorValues, ofVendorValues, Outcome.bind_lift_of_ok hvalues,
      Outcome.bind_lift_of_ok hpositioned, hread]
    refine ⟨rfl, name, hname, ?_⟩
    rw [ofVendorArguments_shape hname hcolor hposition hstop]
    simp only [bind_assoc, pure_bind]
    rfl

/-- Two stops after a position and without it, and after a shape without a position. -/
theorem vendor_position_before_contain :
    let word (name : String) : ComponentValue := .token ⟨.ident name, name⟩
    let comma : ComponentValue := .token ⟨.comma, ","⟩
    let center : Argument := ⟨word "Center", []⟩
    let red : Argument := ⟨word "red", []⟩
    let shape : Argument := ⟨word "contain", []⟩
    center.toList.map ComponentValue.keyword? = [some "center"] ∧ StartsNoShape red.first ∧
    (startsPosition red.first = false ∧
      Argument.split [red.first, comma, red.first] = .ok [red, red] ∧
      Argument.split [center.first, comma, red.first, comma, red.first] = .ok [center, red, red] ∧
      (ofVendorValues [red.first, comma, red.first]).result =
        .ok ⟨.circle, .extent .farthestCorner, none, [⟨Color.ofInt 0xff0000ff, none⟩,
          ⟨Color.ofInt 0xff0000ff, none⟩]⟩) ∧
    NamesShape shape.first ∧
    EndingShape.ofArgument RadialExtent.ofVendorName? shape =
      .ok (some { extent := some .closestSide }) ∧
    Argument.split [shape.first, comma, red.first] = .ok [shape, red] ∧
    Argument.split [center.first, comma, shape.first, comma, red.first] =
      .ok [center, shape, red] ∧
    (ofVendorValues [center.first, comma, shape.first, comma, red.first]).result =
      .ok ⟨.circle, .extent .closestSide, some ⟨.half, .half⟩, [⟨Color.ofInt 0xff0000ff, none⟩]⟩ ∧
    (ofVendorValues [shape.first, comma, red.first]).result =
      .ok ⟨.circle, .extent .farthestCorner, none, [⟨Color.transparent, none⟩,
        ⟨Color.ofInt 0xff0000ff, none⟩]⟩ := by
  intro word comma center red shape
  have hcenter : center.toList.map ComponentValue.keyword? = [some "center"] := by decide +kernel
  have hred : StartsNoShape red.first := ⟨by decide +kernel, by decide +kernel⟩
  have hposition : startsPosition red.first = false := by decide +kernel
  have hplain : Argument.split [red.first, comma, red.first] = .ok [red, red] := by decide
  have hplaced : Argument.split [center.first, comma, red.first, comma, red.first] =
      .ok [center, red, red] := by decide
  have hnames : NamesShape shape.first := .inr (by decide +kernel)
  have he : EndingShape.ofArgument RadialExtent.ofVendorName? shape =
      .ok (some { extent := some .closestSide }) := by decide +kernel
  have hvalues : Argument.split [shape.first, comma, red.first] = .ok [shape, red] := by decide
  have hpositioned : Argument.split [center.first, comma, shape.first, comma, red.first] =
      .ok [center, shape, red] := by decide
  have hnext : ∀ a, [red].head? = some a → StartsNoShape a.first := by
    rintro a ha
    obtain rfl := Option.some.inj ha
    exact hred
  obtain ⟨hshaped, name, hname, hunshaped⟩ :=
    (vendor_position_before_shape hcenter hred).2 _ _ _ _ hnames he hvalues hpositioned
  obtain rfl := TokenKind.ident.inj (Option.some.inj hname)
  refine ⟨hcenter, hred, ⟨hposition, hplain, hplaced, ?_⟩, hnames, he, hvalues, hpositioned, ?_, ?_⟩
  · rw [(vendor_position_before_shape hcenter hred).1 _ _ hposition hnext hplain hplaced]
    decide +kernel
  · rw [hshaped]
    decide +kernel
  · rw [hunshaped]
    decide +kernel

/-- Without a position, the shape and the size are lost, and there is a stop too many. -/
theorem vendor_shape_lost_without_position :
    let word (name : String) : ComponentValue := .token ⟨.ident name, name⟩
    let comma : ComponentValue := .token ⟨.comma, ","⟩
    let values := [word "ellipse", word "contain", comma, word "red", comma, word "blue"]
    EndingShape.ofArgument RadialExtent.ofVendorName? ⟨word "ellipse", [word "contain"]⟩ =
      .ok (some { shape := some .ellipse, extent := some .closestSide }) ∧
    (ofVendorValues (word "center" :: comma :: values)).result =
      .ok ⟨.ellipse, .extent .closestSide, some ⟨.half, .half⟩,
        [⟨Color.ofInt 0xff0000ff, none⟩, ⟨Color.ofInt 0x0000ffff, none⟩]⟩ ∧
    (ofVendorValues values).result =
      .ok ⟨.circle, .extent .farthestCorner, none, [⟨Color.transparent, none⟩,
        ⟨Color.ofInt 0xff0000ff, none⟩, ⟨Color.ofInt 0x0000ffff, none⟩]⟩ := by
  decide +kernel

end RadialGradient

end StyleValue
