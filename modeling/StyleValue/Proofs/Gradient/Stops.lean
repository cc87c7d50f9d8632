import StyleValue.Gradient.Linear
import StyleValue.Gradient.Radial
import StyleValue.Proofs.Component.Argument

/-!
# Stops of gradients

The first arguments of a gradient may give a direction, a position or a shape; each argument after
them is a stop, whatever it looks like. So values with one argument more make the same gradient with
one stop more, or fail as they did without it, or fail because the color of that stop does.
-/

set_option autoImplicit false

namespace StyleValue

namespace Argument

theorem parts_append_comma {comma : ComponentValue} (h : comma.isComma)
    (vs ws : List ComponentValue) : parts (vs ++ comma :: ws) = parts vs ++ parts ws := by
  rw [parts, List.splitOnP_append_cons vs ws h, List.map_append, parts, parts]

theorem parts_of_no_comma {vs : List ComponentValue} (h : ∀ v ∈ vs, v.isComma = false) :
    parts vs = [vs.filter fun v => !v.isWhitespace] := by
  rw [parts, List.splitOnP_eq_singleton h, List.map_singleton]

theorem ofAllParts_concat (parts : List (List ComponentValue)) (v : ComponentValue)
    (vs : List ComponentValue) :
    ofAllParts (parts ++ [v :: vs]) = (ofAllParts parts).map (· ++ [⟨v, vs⟩]) := by
  have hlast : [v :: vs].filterMap ofList? = [⟨v, vs⟩] := rfl
  have hempty : [] ∈ parts ++ [v :: vs] ↔ [] ∈ parts := by simp
  rw [ofAllParts, ofAllParts, if_congr hempty rfl rfl, List.filterMap_append, hlast]
  split <;> rfl

section

variable {vs ws others : List ComponentValue} {comma first : ComponentValue}
  (hcomma : comma.isComma) (hws : ∀ v ∈ ws, v.isComma = false)
  (hvalues : ws.filter (fun v => !v.isWhitespace) = first :: others)
  (hlast : (parts vs).getLast? ≠ some [])
include hcomma hws hvalues hlast

/-- Values without a comma are one argument more, after an argument. -/
theorem split_append_comma :
    split (vs ++ comma :: ws) = (split vs).map (· ++ [⟨first, others⟩]) := by
  have hparts : parts (vs ++ comma :: ws) = parts vs ++ [first :: others] := by
    rw [parts_append_comma hcomma, parts_of_no_comma hws, hvalues]
  have hfull : (parts vs ++ [first :: others]).getLast? ≠ some [] := by simp
  rw [split_eq, split_eq, hparts, ofParts_of_getLast? hfull, ofParts_of_getLast? hlast,
    ofAllParts_concat]

/-- A reading of arguments that makes a stop of each one after so many others. -/
theorem bind_split_append_comma {γ : Type} {read : List Argument → Outcome γ}
    {add : γ → ColorStop → γ} (count : Nat)
    (hread : ∀ args a, count ≤ args.length →
      read (args ++ [a]) = do return add (← read args) (← ColorStop.ofArgument a))
    (hcount : count ≤ (parts vs).length) :
    (do read (← split (vs ++ comma :: ws)) : Outcome γ) = do
      let made ← (do read (← split vs) : Outcome γ)
      return add made ⟨← Color.ofValue first, others.head?.bind LengthPercentage.ofValue?⟩ := by
  rw [split_append_comma hcomma hws hvalues hlast]
  cases hsplit : split vs with
  | error failure => rfl
  | ok args =>
    have hargs : args.map toList = parts vs := by
      rw [split_eq, ofParts_of_getLast? hlast] at hsplit
      exact ofAllParts_eq_ok_iff.1 hsplit
    have hlength : count ≤ args.length := by
      rwa [← hargs, List.length_map] at hcount
    have hstop := hread args ⟨first, others⟩ hlength
    simp only [ColorStop.ofArgument, bind_assoc, pure_bind] at hstop
    exact hstop

end

end Argument

theorem ColorStop.ofArguments_concat (args : List Argument) (a : Argument) :
    ofArguments (args ++ [a]) = do return (← ofArguments args) ++ [← ofArgument a] := by
  unfold ofArguments
  simp [List.mapM_append]

def LinearGradient.addStop (g : LinearGradient) (stop : ColorStop) : LinearGradient :=
  { g with stops := g.stops ++ [stop] }

def RadialGradient.addStop (g : RadialGradient) (stop : ColorStop) : RadialGradient :=
  { g with stops := g.stops ++ [stop] }

theorem LinearGradient.ofArguments_concat (direction : Argument → Parsed (Option Number))
    (args : List Argument) (a : Argument) (h : 1 ≤ args.length) :
    ofArguments direction (args ++ [a]) = do
      return (← ofArguments direction args).addStop (← ColorStop.ofArgument a) := by
  obtain ⟨first, others, rfl⟩ := List.exists_cons_of_length_pos h
  rw [List.cons_append, ofArguments, ofArguments, bind_assoc]
  congr 1
  funext angle?
  cases angle? with
  | some angle =>
    simp only [ColorStop.ofArguments_concat, bind_assoc, pure_bind]
    rfl
  | none =>
    simp only [← List.cons_append, ColorStop.ofArguments_concat, bind_assoc, pure_bind]
    rfl

namespace RadialGradient

theorem ofArguments_concat (args : List Argument) (a : Argument) (h : 1 ≤ args.length) :
    ofArguments (args ++ [a]) = do
      return (← ofArguments args).addStop (← ColorStop.ofArgument a) := by
  obtain ⟨first, others, rfl⟩ := List.exists_cons_of_length_pos h
  rw [List.cons_append, ofArguments, ofArguments, bind_assoc]
  congr 1
  funext shape?
  cases shape? with
  | some shape =>
    simp only [ColorStop.ofArguments_concat, bind_assoc, pure_bind]
    rfl
  | none =>
    simp only [← List.cons_append, ColorStop.ofArguments_concat, bind_assoc, pure_bind]
    rfl

/-- An argument after the two that may give a position and a shape. -/
theorem ofVendorArguments_concat (args : List Argument) (a : Argument) (h : 2 ≤ args.length) :
    ofVendorArguments (args ++ [a]) = do
      return (← ofVendorArguments args).addStop (← ColorStop.ofArgument a) := by
  match args, h with
  | first :: second :: others, _ =>
    simp only [List.cons_append, ofVendorArguments, ColorStop.ofArguments_concat, bind_assoc,
      pure_bind]
    simp [ofShape, addStop]

end RadialGradient

theorem LengthPercentage.ofValue?_eq_some_iff {v : ComponentValue} {l : LengthPercentage} :
    ofValue? v = some l ↔ v = .token l.toToken := by
  constructor
  · intro h
    unfold ofValue? at h
    split at h
    · cases h
      rfl
    · cases h
      rfl
    · cases h
      rfl
    · cases h
  · rintro rfl
    exact ofValue?_toToken l

def IsPositionOf (second : Option ComponentValue) : Option LengthPercentage → Prop
  | some l => second = some (.token l.toToken)
  | none => ∀ l : LengthPercentage, second ≠ some (.token l.toToken)

theorem isPositionOf_bind (second : Option ComponentValue) :
    IsPositionOf second (second.bind LengthPercentage.ofValue?) := by
  cases second with
  | none =>
    intro l hl
    cases hl
  | some v =>
    rw [Option.bind_some]
    cases h : LengthPercentage.ofValue? v with
    | some l => exact congrArg some (LengthPercentage.ofValue?_eq_some_iff.1 h)
    | none =>
      intro l hl
      rw [LengthPercentage.ofValue?_eq_some_iff.2 (Option.some.inj hl)] at h
      cases h

/-- Values that go on, after a comma, with one argument more make the gradient that they made
without it, with one stop more, the color and position of which are the first two values of the
argument; they fail if they failed without it, and as they did, and otherwise only as the color
does. The diagnostics are those of the values and then those of the color. -/
theorem ColorStop.one_for_each_argument {vs ws others : List ComponentValue}
    {comma first : ComponentValue} (hcomma : comma.isComma) (hws : ∀ v ∈ ws, v.isComma = false)
    (hvalues : ws.filter (fun v => !v.isWhitespace) = first :: others)
    (hlast : (Argument.parts vs).getLast? ≠ some []) :
    ∃ position, IsPositionOf others.head? position ∧
      LinearGradient.ofValues (vs ++ comma :: ws) = (do
        return (← LinearGradient.ofValues vs).addStop ⟨← Color.ofValue first, position⟩) ∧
      LinearGradient.ofVendorValues (vs ++ comma :: ws) = (do
        return (← LinearGradient.ofVendorValues vs).addStop ⟨← Color.ofValue first, position⟩) ∧
      RadialGradient.ofValues (vs ++ comma :: ws) = (do
        return (← RadialGradient.ofValues vs).addStop ⟨← Color.ofValue first, position⟩) ∧
      (2 ≤ (Argument.parts vs).length →
        RadialGradient.ofVendorValues (vs ++ comma :: ws) = (do
          return (← RadialGradient.ofVendorValues vs).addStop
            ⟨← Color.ofValue first, position⟩)) := by
  have hone : 1 ≤ (Argument.parts vs).length :=
    List.length_pos_iff.2 (Argument.parts_ne_nil vs)
  refine ⟨_, isPositionOf_bind others.head?, ?_, ?_, ?_, fun htwo => ?_⟩
  · exact Argument.bind_split_append_comma hcomma hws hvalues hlast 1
      (LinearGradient.ofArguments_concat LinearGradient.direction) hone
  · exact Argument.bind_split_append_comma hcomma hws hvalues hlast 1
      (LinearGradient.ofArguments_concat LinearGradient.vendorDirection) hone
  · exact Argument.bind_split_append_comma hcomma hws hvalues hlast 1
      RadialGradient.ofArguments_concat hone
  · exact Argument.bind_split_append_comma hcomma hws hvalues hlast 2
      RadialGradient.ofVendorArguments_concat htwo

/-- A third argument that reads like a shape is a stop of an unknown color. -/
theorem ColorStop.one_for_each_argument_shape :
    let word (name : String) : ComponentValue := .token ⟨.ident name, name⟩
    let comma : ComponentValue := .token ⟨.comma, ","⟩
    let space : ComponentValue := .token ⟨.whitespace, " "⟩
    let percent : ComponentValue := .token ⟨.percentage 10, "10%"⟩
    let values := [word "left", comma, word "cover", space]
    let argument := [space, word "circle", space, percent]
    (∀ v ∈ argument, v.isComma = false) ∧
    argument.filter (fun v => !v.isWhitespace) = [word "circle", percent] ∧
    (Argument.parts values).getLast? ≠ some [] ∧ 2 ≤ (Argument.parts values).length ∧
    (RadialGradient.ofVendorValues (values ++ comma :: argument)).result =
      .ok ⟨.circle, .extent .farthestCorner, some ⟨.zero, .half⟩,
        [⟨Color.transparent, some ⟨.percentage 10, "10%"⟩⟩]⟩ := by
  intro word comma space percent values argument
  have hargument : ∀ v ∈ argument, v.isComma = false := by decide
  have hvalues : argument.filter (fun v => !v.isWhitespace) = [word "circle", percent] := by decide
  have hlast : (Argument.parts values).getLast? ≠ some [] := by decide
  have hcount : 2 ≤ (Argument.parts values).length := by decide
  have hcomma : comma.isComma := rfl
  obtain ⟨position, hposition, -, -, -, hvendor⟩ :=
    one_for_each_argument hcomma hargument hvalues hlast
  have hpercent : position = some ⟨.percentage 10, "10%"⟩ := by
    cases position with
    | none => exact absurd rfl (hposition ⟨.percentage 10, "10%"⟩)
    | some l =>
      have htoken : (LengthPercentage.toToken ⟨.percentage 10, "10%"⟩) = l.toToken :=
        ComponentValue.token.inj (Option.some.inj hposition)
      have hread := LengthPercentage.ofValue?_toToken l
      rw [← htoken] at hread
      exact hread.symm
  refine ⟨hargument, hvalues, hlast, hcount, ?_⟩
  rw [hvendor hcount, hpercent]
  decide +kernel

end StyleValue
