import StyleValue.Image
import StyleValue.Proofs.Outcome

/-!
# What images report and register

Parsing a gradient reports only colors that are taken to be transparent, and registers nothing. So
the only images that register anything are those given by a URL.
-/

set_option autoImplicit false

namespace StyleValue

open Outcome

def Diagnostic.IsOfColor : Diagnostic → Prop
  | .unsupportedColor _ | .invalidHexColor _ | .unknownColorName _ => True
  | _ => False

def Event.IsOfColor (e : Event) : Prop := ∃ d : Diagnostic, d.IsOfColor ∧ e = .report d

namespace Color

theorem emits_transparent {d : Diagnostic} (h : d.IsOfColor) :
    (do report d; return transparent : Outcome Color).Emits Event.IsOfColor :=
  (emits_report ⟨d, h, rfl⟩).map _

theorem emits_ofPlain (v : ComponentValue) : (ofPlain v).Emits Event.IsOfColor := by
  unfold ofPlain
  split
  · split
    · exact emits_pure _
    · exact emits_transparent trivial
  · split
    · exact emits_pure _
    · exact emits_transparent trivial
  · exact emits_transparent trivial

theorem emits_originToXyz (v : ComponentValue) : (originToXyz v).Emits Event.IsOfColor := by
  unfold originToXyz
  split
  · split
    · exact emits_ofParsed _
    · exact emits_fail _
  · exact (emits_ofPlain _).bind fun _ _ => emits_ofParsed _

theorem emits_relative (space : ColorSpace) (origin : ComponentValue)
    (values : List ComponentValue) : (relative space origin values).Emits Event.IsOfColor :=
  (emits_originToXyz origin).bind fun _ _ => emits_ofParsed _

theorem emits_ofColorFunction (values : List ComponentValue) :
    (ofColorFunction values).Emits Event.IsOfColor := by
  unfold ofColorFunction
  dsimp only
  split
  · split
    · exact (emits_ofParsed _).bind fun _ _ => emits_relative _ _ _
    · exact emits_ofParsed _
  · split <;> exact emits_ofParsed _

theorem emits_ofValue (v : ComponentValue) : (ofValue v).Emits Event.IsOfColor := by
  unfold ofValue
  split
  · split
    · exact emits_ofParsed _
    · split
      · exact emits_ofColorFunction _
      · exact emits_fail _
  · exact emits_ofPlain _

end Color

theorem ColorStop.emits_ofArgument (a : Argument) :
    (ColorStop.ofArgument a).Emits Event.IsOfColor :=
  (Color.emits_ofValue _).map _

theorem ColorStop.emits_ofArguments (arguments : List Argument) :
    (ColorStop.ofArguments arguments).Emits Event.IsOfColor :=
  emits_mapM fun a _ => emits_ofArgument a

theorem LinearGradient.emits_ofArguments (direction : Argument → Parsed (Option Number))
    (arguments : List Argument) :
    (LinearGradient.ofArguments direction arguments).Emits Event.IsOfColor := by
  cases arguments with
  | nil => exact emits_pure _
  | cons first others =>
    refine (emits_ofParsed _).bind fun angle _ => ?_
    cases angle <;> exact (ColorStop.emits_ofArguments _).map _

namespace RadialGradient

theorem emits_ofArguments (arguments : List Argument) :
    (ofArguments arguments).Emits Event.IsOfColor := by
  cases arguments with
  | nil => exact emits_pure _
  | cons first others =>
    refine (emits_ofParsed _).bind fun shape _ => ?_
    cases shape <;> exact (ColorStop.emits_ofArguments _).map _

theorem emits_vendorFirst (a : Argument) : (vendorFirst a).Emits Event.IsOfColor := by
  unfold vendorFirst
  split
  · exact (emits_ofParsed _).map _
  · exact (ColorStop.emits_ofArgument a).map _

theorem emits_vendorSecond (a : Argument) : (vendorSecond a).Emits Event.IsOfColor := by
  refine (emits_ofParsed _).bind fun shape _ => ?_
  cases shape with
  | some shape => exact emits_pure _
  | none => exact (ColorStop.emits_ofArgument a).map _

theorem emits_ofVendorArguments (arguments : List Argument) :
    (ofVendorArguments arguments).Emits Event.IsOfColor := by
  match arguments with
  | [] => exact emits_pure _
  | [first] => exact (emits_vendorFirst first).map _
  | first :: second :: others =>
    exact (emits_vendorFirst first).bind fun _ _ => (emits_vendorSecond second).bind fun _ _ =>
      (ColorStop.emits_ofArguments others).map _

end RadialGradient

namespace PointGradient

theorem emits_stop? (name : String) (values : List ComponentValue) :
    (stop? name values).Emits Event.IsOfColor := by
  have hstop (color : ComponentValue) (position : LengthPercentage) : Outcome.Emits Event.IsOfColor
      (do return some ⟨← Color.ofValue color, some position⟩ : Outcome (Option ColorStop)) :=
    (Color.emits_ofValue color).map _
  unfold stop?
  dsimp only
  split
  · exact hstop _ _
  · exact hstop _ _
  · split
    · exact (emits_ofParsed _).bind fun _ _ => hstop _ _
    · exact hstop _ _
    · exact emits_pure _
  · exact emits_pure _

theorem emits_stops (arguments : List Argument) : (stops arguments).Emits Event.IsOfColor := by
  induction arguments with
  | nil => exact emits_pure _
  | cons a arguments ih =>
    unfold stops
    split
    · exact (emits_stop? _ _).bind fun _ _ => ih.map _
    · exact ih

theorem emits_ofArguments (arguments : List Argument) :
    (ofArguments arguments).Emits Event.IsOfColor := by
  unfold ofArguments
  split
  · exact emits_ofParsed _
  · split
    · exact (emits_stops _).bind fun _ _ => (emits_ofParsed _).map _
    · exact (emits_stops _).bind fun _ _ => (emits_ofParsed _).map _
    · exact emits_ofParsed _

end PointGradient

/-- A function that makes an image reports only colors that it has. -/
theorem ImageFunction.emits_apply (f : ImageFunction) (values : List ComponentValue) :
    (f.apply values).Emits Event.IsOfColor := by
  cases f with
  | linear | vendorLinear =>
    exact Emits.map ((emits_ofParsed _).bind fun _ _ => LinearGradient.emits_ofArguments _ _) _
  | radial =>
    exact Emits.map ((emits_ofParsed _).bind fun _ _ => RadialGradient.emits_ofArguments _) _
  | vendorRadial =>
    exact Emits.map ((emits_ofParsed _).bind fun _ _ => RadialGradient.emits_ofVendorArguments _) _
  | points =>
    refine Emits.bind ((emits_ofParsed _).bind fun _ _ => PointGradient.emits_ofArguments _)
      fun gradient _ => ?_
    cases gradient <;> exact emits_pure _

/-- A function that makes an image registers nothing. -/
theorem ImageFunction.emits_apply_report (f : ImageFunction) (values : List ComponentValue) :
    (f.apply values).Emits fun e => ∃ d, e = .report d :=
  (f.emits_apply values).mono fun _ ⟨d, _, h⟩ => ⟨d, h⟩

def Event.IsOfImage (e : Event) : Prop := e.IsOfColor ∨ ∃ url, e = .register url

theorem Image.emits_ofValue (v : ComponentValue) : (Image.ofValue v).Emits Event.IsOfImage := by
  unfold Image.ofValue
  split
  · exact (emits_register (.inr ⟨_, rfl⟩)).map _
  · split
    · exact (ImageFunction.emits_apply _ _).mono fun _ => .inl
    · exact emits_fail _
  · exact emits_fail _

end StyleValue
