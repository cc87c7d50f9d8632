import StyleValue.Proofs.Component.Argument
import StyleValue.Proofs.Failure
import StyleValue.Proofs.Property.Parse

/-!
# Properties with defaults

Some properties have a default for whatever they do not recognize. Only `paint-order` has it for any
values at all. Those of backgrounds have it for each part between commas, but refuse an empty part,
and `visibility` has it for any one value, but refuses none and more than one.
-/

set_option autoImplicit false

namespace StyleValue

open Outcome TokenStream

def BackgroundBox.ofPart (part : List ComponentValue) : BackgroundBox :=
  (part.head?.bind fun v => v.keyword?.bind ofName?).getD .borderBox

def BackgroundRepeat.ofPart (part : List ComponentValue) : BackgroundRepeat :=
  (ofClause? (keywordClause part)).getD .repeatBoth

def Visibility.ofValue (v : ComponentValue) : Visibility :=
  if v.isKeyword "hidden" then .hidden else if v.isKeyword "collapse" then .collapse else .visible

theorem PaintLayer.ofValues_of_unnamed {vs : List ComponentValue}
    (h : ∀ v ∈ vs, v.keyword?.bind ofName? = none) : ofValues vs = all := by
  have hnamed : (vs.filterMap fun v => v.keyword?.bind ofName?) = [] :=
    List.filterMap_eq_nil_iff.2 h
  rw [ofValues, hnamed]
  rfl

theorem ComponentValue.isKeyword_iff {v : ComponentValue} (w : String) :
    v.isKeyword w ↔ ∃ name, v.kind? = some (.ident name) ∧ lowercase name = w := by
  unfold isKeyword keyword?
  split
  · next name source => simp [kind?]
  · next hident =>
    constructor
    · intro hnone
      cases hnone
    · rintro ⟨name, hkind, -⟩
      cases v with
      | token t =>
        rcases t with ⟨kind, source⟩
        cases hkind
        exact (hident name source rfl).elim
      | function | block => cases hkind

theorem Visibility.ofValue_ident {v : ComponentValue} {name : String}
    (h : v.kind? = some (.ident name)) : ofValue v = ofName name := by
  have hkeyword (w : String) : v.isKeyword w ↔ lowercase name = w := by
    simp [ComponentValue.isKeyword_iff, h]
  rw [ofValue, ofName]
  simp only [hkeyword]
  by_cases hhidden : lowercase name = "hidden"
  · rw [hhidden]
    rfl
  · by_cases hcollapse : lowercase name = "collapse"
    · rw [hcollapse]
      rfl
    · rw [if_neg hhidden, if_neg hcollapse]
      split
      · next h => exact absurd h hhidden
      · next h => exact absurd h hcollapse
      · rfl

theorem Visibility.ofValue_other {v : ComponentValue}
    (h : ∀ name, v.kind? ≠ some (.ident name)) : ofValue v = .visible := by
  have hkeyword (w : String) : ¬ v.isKeyword w := by
    rw [ComponentValue.isKeyword_iff]
    rintro ⟨name, hkind, -⟩
    exact h name hkind
  rw [ofValue, if_neg (hkeyword _), if_neg (hkeyword _)]

namespace Property

theorem result_interpret_visibility (tokens : List Token) :
    (visibility.interpret tokens).result =
      (theOne (trim (Grouping.completed [] tokens))).map fun v =>
        .visibility (Visibility.ofValue v) := by
  have hvalue := value_offers (offers_ofTokens tokens)
  simp only [interpret, visibility]
  cases hone : theOne (trim (Grouping.completed [] tokens)) with
  | error failure =>
    rw [hone] at hvalue
    rw [bind_of_error hvalue]
    rfl
  | ok v =>
    rw [hone] at hvalue
    rw [bind_of_ok hvalue, result_after]
    split
    · next name hkind =>
      exact congrArg (Except.ok ∘ PropertyValue.visibility) (Visibility.ofValue_ident hkind).symm
    · next hkind =>
      exact congrArg (Except.ok ∘ PropertyValue.visibility) (Visibility.ofValue_other hkind).symm

theorem result_parse_box {p : Property} (hmode : p.mode = .list)
    (hrule : p.rule = some Rule.backgroundBox) (text : String) :
    (p.parse (some text)).result =
      ofTextValues text fun vs => (Argument.mapParts vs BackgroundBox.ofPart).map .boxes := by
  apply result_parse
  intro tokens
  rw [result_interpret_list hmode hrule, ← Argument.map_split]
  rfl

theorem result_parse_repeat (text : String) : (backgroundRepeat.parse (some text)).result =
    ofTextValues text fun vs => (Argument.mapParts vs BackgroundRepeat.ofPart).map .repeats := by
  apply result_parse
  intro tokens
  rw [result_interpret_list rfl rfl, ← Argument.map_split]
  rfl

theorem result_parse_paintOrder (text : String) : (paintOrder.parse (some text)).result =
    ofTextValues text fun vs => .ok (.layers (PaintLayer.ofValues vs)) := by
  apply result_parse
  intro tokens
  rw [result_interpret_list rfl rfl]
  rfl

/-- What the properties with defaults make of a text. Values that name no layer give all layers in
their own order. A part that names no box or repetition gives the default, but an empty part is
refused unless it is the last. A value that names no visibility gives the default, but it has to be
the only one. -/
theorem lenient_parse (text : String) :
    (paintOrder.parse (some text)).result =
      ofTextValues text (fun vs => .ok (.layers (PaintLayer.ofValues vs))) ∧
    (∀ vs, (∀ v ∈ vs, v.keyword?.bind PaintLayer.ofName? = none) →
      PaintLayer.ofValues vs = PaintLayer.all) ∧
    (backgroundClip.parse (some text)).result =
      ofTextValues text (fun vs => (Argument.mapParts vs BackgroundBox.ofPart).map .boxes) ∧
    (backgroundOrigin.parse (some text)).result =
      ofTextValues text (fun vs => (Argument.mapParts vs BackgroundBox.ofPart).map .boxes) ∧
    (backgroundRepeat.parse (some text)).result =
      ofTextValues text (fun vs => (Argument.mapParts vs BackgroundRepeat.ofPart).map .repeats) ∧
    (visibility.parse (some text)).result =
      ofTextValues text fun vs =>
        (theOne (trim vs)).map fun v => .visibility (Visibility.ofValue v) :=
  ⟨result_parse_paintOrder text, fun _ => PaintLayer.ofValues_of_unnamed,
    result_parse_box rfl rfl text, result_parse_box rfl rfl text, result_parse_repeat text,
    result_parse visibility text result_interpret_visibility⟩

/-- An identifier that names no layer, and a comma. -/
theorem lenient_parse_bogus :
    let vs : List ComponentValue := [.ofKind (.ident "bogus"), .ofKind .comma]
    (∀ v ∈ vs, v.keyword?.bind PaintLayer.ofName? = none) ∧
      PaintLayer.ofValues vs = PaintLayer.all := by
  have hunnamed : ∀ v ∈ [ComponentValue.ofKind (.ident "bogus"), .ofKind .comma],
      v.keyword?.bind PaintLayer.ofName? = none := by decide +kernel
  exact ⟨hunnamed, (lenient_parse "bogus,").2.1 _ hunnamed⟩

/-- The empty text has no visibility, and an empty part no box. -/
theorem not_lenient :
    (visibility.parse (some "")).result = reject .noValue ∧
      (backgroundClip.parse (some "padding-box,,content-box")).result = reject .emptyArgument := by
  decide +kernel

end Property

end StyleValue
