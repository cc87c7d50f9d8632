import Mathlib.Data.Int.ModEq
import Mathlib.Data.List.Basic
import StyleValue.Gradient.Linear
import StyleValue.Proofs.Component.Argument

/-!
# Directions of linear gradients

The vendors' function reads a direction in its own way: an angle turns the other way and starts
elsewhere, and a side is where the gradient comes from. In all else it is the standard function:
where there is no direction the two make the same gradient, a side is the standard direction to the
opposite side, and an angle differs by a turn that neither fails nor reaches the stops.
-/

set_option autoImplicit false

namespace StyleValue

inductive Side
  | top
  | right
  | bottom
  | left
deriving DecidableEq

namespace Side

def all : List Side := [.top, .right, .bottom, .left]

def name : Side → String
  | .top => "top"
  | .right => "right"
  | .bottom => "bottom"
  | .left => "left"

def opposite : Side → Side
  | .top => .bottom
  | .right => .left
  | .bottom => .top
  | .left => .right

def isVertical : Side → Bool
  | .top | .bottom => true
  | .right | .left => false

theorem mem_all (s : Side) : s ∈ all := by
  cases s <;> decide

theorem name_injective : Function.Injective name := by
  intro s t h
  cases s <;> cases t <;> first | rfl | exact absurd h (by decide)

theorem space_notMem_name (s : Side) : ' ' ∉ s.name.toList := by
  cases s <;> decide

def IsClause : List Side → Prop
  | [_] => True
  | [s, t] => s.isVertical ≠ t.isVertical
  | _ => False

def Continues (text : List Char) : Prop :=
  ∀ s ∈ all, s.name.toList ++ [' '] <+: text →
    ∃ t ∈ all, s.isVertical ≠ t.isVertical ∧
      text.drop (s.name.toList ++ [' ']).length = t.name.toList

instance (text : List Char) : Decidable (Continues text) :=
  inferInstanceAs (Decidable (∀ s ∈ all, _ → ∃ t ∈ all, _))

theorem continues_of_isSome {clause : String} (h : (sideDegrees? clause).isSome) :
    Continues clause.toList := by
  unfold sideDegrees? at h
  split at h <;> first | decide +kernel | cases h

theorem exists_of_isSome {s : Side} {others : String}
    (h : (sideDegrees? (s.name ++ " " ++ others)).isSome) :
    ∃ t : Side, s.isVertical ≠ t.isVertical ∧ others = t.name := by
  have hlist : (s.name ++ " " ++ others).toList = (s.name.toList ++ [' ']) ++ others.toList := by
    rw [String.toList_append, String.toList_append]
    rfl
  have hfront : s.name.toList ++ [' '] <+: (s.name ++ " " ++ others).toList := by
    rw [hlist]
    exact List.prefix_append _ _
  obtain ⟨t, -, hmeets, hdrop⟩ := continues_of_isSome h s (mem_all s) hfront
  rw [hlist, List.drop_left] at hdrop
  exact ⟨t, hmeets, String.toList_inj.1 hdrop⟩

/-- A clause that starts with a side names that side or a corner of it. -/
theorem exists_clause {s : Side} {names : List String}
    (h : (sideDegrees? (String.intercalate " " (s.name :: names))).isSome) :
    ∃ sides, IsClause sides ∧ s.name :: names = sides.map name := by
  cases names with
  | nil => exact ⟨[s], trivial, rfl⟩
  | cons n names =>
    rw [String.intercalate_cons_cons] at h
    obtain ⟨t, hmeets, ht⟩ := exists_of_isSome h
    cases names with
    | nil =>
      rw [String.intercalate_singleton] at ht
      exact ⟨[s, t], hmeets, by rw [ht]; rfl⟩
    | cons m names =>
      have hspace : ' ' ∈ t.name.toList := by
        rw [← ht, String.intercalate_cons_cons, String.toList_append, String.toList_append]
        simp
      exact absurd hspace (space_notMem_name t)

/-- The direction from some sides is the direction to those opposite, in either order. -/
theorem sideDegrees?_opposite {sides goal : List Side} (h : IsClause sides)
    (hgoal : goal = sides.map opposite ∨ goal = (sides.map opposite).reverse) :
    sideDegrees? (String.intercalate " " ("to" :: goal.map name)) =
      sideDegrees? (String.intercalate " " (sides.map name)) := by
  match sides, h with
  | [s], _ =>
    have hone : goal = [s.opposite] := by simpa using hgoal
    subst hone
    cases s <;> decide +kernel
  | [s, t], hmeets =>
    rcases hgoal with rfl | rfl
    · cases s <;> cases t <;> first | exact absurd rfl hmeets | decide +kernel
    · cases s <;> cases t <;> first | exact absurd rfl hmeets | decide +kernel

end Side

namespace ComponentValue

theorem keyword?_of_isAngleOrZero {v : ComponentValue} (h : v.isAngleOrZero) :
    v.keyword? = none := by
  cases hkeyword : v.keyword? with
  | none => rfl
  | some name =>
    obtain ⟨written, source, rfl, -⟩ := exists_ident_of_keyword? hkeyword
    cases h

theorem isKeyword_of_isAngleOrZero {v : ComponentValue} (h : v.isAngleOrZero) (name : String) :
    v.isKeyword name = false := by
  rw [isKeyword, keyword?_of_isAngleOrZero h]
  rfl

structure StartsNoDirection (v : ComponentValue) : Prop where
  not_angle : ¬ v.isAngleOrZero
  not_to : ¬ v.isKeyword "to"
  not_side : ∀ s : Side, ¬ v.isKeyword s.name

theorem any_isKeyword_side (v : ComponentValue) :
    ["top", "left", "right", "bottom"].any v.isKeyword ↔ ∃ s : Side, v.isKeyword s.name := by
  rw [List.any_eq_true]
  constructor
  · rintro ⟨name, hname, h⟩
    simp only [List.mem_cons, List.not_mem_nil, or_false] at hname
    rcases hname with rfl | rfl | rfl | rfl
    · exact ⟨.top, h⟩
    · exact ⟨.left, h⟩
    · exact ⟨.right, h⟩
    · exact ⟨.bottom, h⟩
  · rintro ⟨s, h⟩
    exact ⟨s.name, by cases s <;> decide, h⟩

end ComponentValue

namespace Argument

/-- The first argument is the first part, and those after it are the same whatever it is. -/
theorem bind_split_cons {γ : Type} {values vs : List ComponentValue} {v : ComponentValue}
    {rest : List (List ComponentValue)} (h : parts values = (v :: vs) :: rest)
    (read : List Argument → Outcome γ) :
    (do read (← split values) : Outcome γ) = (do
      let others ← ofParts rest
      read (⟨v, vs⟩ :: others)) := by
  rw [split_eq, h, ofParts_cons]
  cases ofParts rest <;> rfl

theorem bind_split_nil {γ : Type} {values : List ComponentValue}
    {rest : List (List ComponentValue)} (h : parts values = [] :: rest)
    (read : List Argument → Outcome γ) :
    (do read (← split values) : Outcome γ) =
      if rest = [] then read [] else Outcome.ofParsed (reject .emptyArgument) := by
  rw [split_eq, h]
  split
  · next hrest =>
    subst hrest
    rfl
  · next hrest =>
    rw [ofParts_nil_cons hrest]
    rfl

end Argument

namespace LinearGradient

def turned : Number → Number
  | .integer n => .integer ((90 - n) % 360)
  | .double x => .double ((90 - x) % 360)

theorem turned_eq (a : Number) : ((90 - .ok a) % 360 : Computed Number) = .ok (turned a) := by
  cases a with
  | integer n =>
    show Except.ok (Number.integer (Int.fmod (90 - n) 360)) = _
    rw [Int.fmod_eq_emod_of_nonneg _ (by decide)]
    rfl
  | double x => rfl

theorem direction_of_startsNone {a : Argument} (h : a.first.StartsNoDirection) :
    direction a = .ok none := by
  rw [direction, if_neg h.not_to, if_neg h.not_angle]

theorem vendorDirection_of_startsNone {a : Argument} (h : a.first.StartsNoDirection) :
    vendorDirection a = .ok none := by
  have hside : ¬ ["top", "left", "right", "bottom"].any a.first.isKeyword := by
    rw [ComponentValue.any_isKeyword_side]
    rintro ⟨s, hs⟩
    exact h.not_side s hs
  rw [vendorDirection, if_neg hside, if_neg h.not_angle]

theorem direction_of_isAngleOrZero {a : Argument} (h : a.first.isAngleOrZero) :
    direction a = a.first.degrees.map some := by
  rw [direction, ComponentValue.isKeyword_of_isAngleOrZero h, if_neg Bool.false_ne_true, if_pos h]

theorem vendorDirection_of_isAngleOrZero {a : Argument} (h : a.first.isAngleOrZero) :
    vendorDirection a = a.first.degrees.map fun degrees => some (turned degrees) := by
  have hside : ¬ ["top", "left", "right", "bottom"].any a.first.isKeyword := by
    rw [ComponentValue.any_isKeyword_side]
    rintro ⟨s, hs⟩
    rw [ComponentValue.isKeyword_of_isAngleOrZero h] at hs
    cases hs
  rw [vendorDirection, if_neg hside, if_pos h]
  cases a.first.degrees with
  | error failure => rfl
  | ok degrees =>
    show (do return some (← _) : Parsed (Option Number)) = _
    rw [turned_eq]
    rfl

theorem direction_of_to {a : Argument} (h : a.first.isKeyword "to") :
    direction a = (namedSide a.toList).map some := by
  rw [direction, if_pos h]

theorem vendorDirection_of_side {a : Argument} {s : Side} (h : a.first.isKeyword s.name) :
    vendorDirection a = (namedSide a.toList).map some := by
  rw [vendorDirection, if_pos ((ComponentValue.any_isKeyword_side _).2 ⟨s, h⟩)]

/-- What a direction that is given makes of the arguments after it. -/
theorem ofArguments_given {direction : Argument → Parsed (Option Number)} {a : Argument}
    {angle? : Parsed Number} (h : direction a = angle?.map some) (others : List Argument) :
    ofArguments direction (a :: others) = do
      return ⟨← Outcome.ofParsed angle?, ← ColorStop.ofArguments others⟩ := by
  rw [ofArguments, h]
  cases angle? <;> rfl

theorem ofArguments_congr {direction other : Argument → Parsed (Option Number)} {a : Argument}
    (h : direction a = other a) (others : List Argument) :
    ofArguments direction (a :: others) = ofArguments other (a :: others) := by
  rw [ofArguments, ofArguments, h]

theorem ofArguments_turned {a : Argument} (h : a.first.isAngleOrZero) (others : List Argument) :
    ofArguments vendorDirection (a :: others) = do
      let g ← ofArguments direction (a :: others)
      return { g with angle := turned g.angle } := by
  have hturned : vendorDirection a = (a.first.degrees.map turned).map some := by
    rw [vendorDirection_of_isAngleOrZero h]
    cases a.first.degrees <;> rfl
  rw [ofArguments_given (direction_of_isAngleOrZero h), ofArguments_given hturned]
  cases a.first.degrees with
  | error failure => rfl
  | ok degrees =>
    show (do return ⟨turned degrees, ← ColorStop.ofArguments others⟩ : Outcome LinearGradient) = _
    simp only [bind_assoc, pure_bind]
    rfl

theorem exists_clause_of_namedSide {v : ComponentValue} {vs : List ComponentValue} {s : Side}
    {degrees : Number} (hv : v.isKeyword s.name) (h : namedSide (v :: vs) = .ok degrees) :
    ∃ sides, Side.IsClause sides ∧
      (v :: vs).filterMap ComponentValue.keyword? = sides.map Side.name ∧
      sideDegrees? (String.intercalate " " (sides.map Side.name)) = some degrees := by
  have hnames : (v :: vs).filterMap ComponentValue.keyword? =
      s.name :: vs.filterMap ComponentValue.keyword? :=
    List.filterMap_cons_some (beq_iff_eq.1 hv)
  have hdegrees : sideDegrees? (keywordClause (v :: vs)) = some degrees := by
    rw [namedSide] at h
    cases hside : sideDegrees? (keywordClause (v :: vs)) with
    | some found =>
      rw [hside] at h
      exact congrArg some (Except.ok.inj h)
    | none =>
      rw [hside] at h
      cases h
  rw [keywordClause, hnames] at hdegrees
  obtain ⟨sides, hsides, hclause⟩ := Side.exists_clause (Option.isSome_of_eq_some hdegrees)
  exact ⟨sides, hsides, hnames.trans hclause, hclause ▸ hdegrees⟩

theorem namedSide_of_names {values : List ComponentValue} {names : List String} {degrees : Number}
    (hvalues : values.map ComponentValue.keyword? = names.map some)
    (h : sideDegrees? (String.intercalate " " names) = some degrees) :
    namedSide values = .ok degrees := by
  have hnames : values.filterMap ComponentValue.keyword? = names := by
    have hread := congrArg (List.filterMap id) hvalues
    simpa [List.filterMap_map] using hread
  rw [namedSide, keywordClause, hnames]
  simp only [h]

/-- A side or corner that the vendors' function takes is the standard clause of those opposite. -/
theorem ofVendorValues_of_clause {values standard vs clause : List ComponentValue}
    {v : ComponentValue} {rest : List (List ComponentValue)} {s : Side} {sides goal : List Side}
    {degrees : Number} (h : Argument.parts values = (v :: vs) :: rest)
    (hv : v.isKeyword s.name) (hdegrees : namedSide (v :: vs) = .ok degrees)
    (hsides : Side.IsClause sides)
    (hclause : sideDegrees? (String.intercalate " " (sides.map Side.name)) = some degrees)
    (hgoal : goal = sides.map Side.opposite ∨ goal = (sides.map Side.opposite).reverse)
    (hstandard : Argument.parts standard = clause :: rest)
    (hwords : clause.map ComponentValue.keyword? = ("to" :: goal.map Side.name).map some) :
    ofVendorValues values = ofValues standard := by
  cases clause with
  | nil => cases hwords
  | cons w ws =>
    have hto : w.isKeyword "to" := beq_iff_eq.2 (List.cons.inj hwords).1
    have hsame : namedSide (w :: ws) = .ok degrees :=
      namedSide_of_names hwords ((Side.sideDegrees?_opposite hsides hgoal).trans hclause)
    have hvendor := vendorDirection_of_side (a := ⟨v, vs⟩) hv
    have hdirection := direction_of_to (a := ⟨w, ws⟩) hto
    rw [ofVendorValues, ofValues, Argument.bind_split_cons h, Argument.bind_split_cons hstandard]
    congr 1
    funext others
    rw [ofArguments_given hvendor, ofArguments_given hdirection]
    show (do return ⟨← Outcome.ofParsed (namedSide (v :: vs)), ← ColorStop.ofArguments others⟩) =
      (do return ⟨← Outcome.ofParsed (namedSide (w :: ws)), ← ColorStop.ofArguments others⟩ :
        Outcome LinearGradient)
    rw [hdegrees, hsame]

/-- The vendors' function and the standard one fail together and make the same stops. If the first
argument starts with an angle, or a zero without a unit, the vendors' angle is that of the standard
gradient, turned; if it starts no direction, the gradients are the same; and a side or corner that
the vendors take gives the gradient of the standard clause, `to` and the opposite sides in either
order. -/
theorem vendor_directions_agree {values first : List ComponentValue}
    {rest : List (List ComponentValue)} (h : Argument.parts values = first :: rest) :
    (∀ v, first.head? = some v → v.isAngleOrZero → ofVendorValues values = do
      let g ← ofValues values
      return { g with angle := turned g.angle }) ∧
    (∀ angle : Number, ((90 - .ok angle) % 360 : Computed Number) = .ok (turned angle)) ∧
    (∀ n : Int, ∃ m : Int, turned (.integer n) = .integer m ∧ 0 ≤ m ∧ m < 360 ∧
      m ≡ 90 - n [ZMOD 360]) ∧
    ((∀ v, first.head? = some v → v.StartsNoDirection) →
      ofVendorValues values = ofValues values) ∧
    ∀ v (s : Side) degrees, first.head? = some v → v.isKeyword s.name →
      namedSide first = .ok degrees →
      ∃ sides, Side.IsClause sides ∧
        first.filterMap ComponentValue.keyword? = sides.map Side.name ∧
        ∀ goal clause standard,
          goal = sides.map Side.opposite ∨ goal = (sides.map Side.opposite).reverse →
          clause.map ComponentValue.keyword? = ("to" :: goal.map Side.name).map some →
          Argument.parts standard = clause :: rest →
          ofVendorValues values = ofValues standard := by
  refine ⟨?angle, turned_eq, ?integer, ?none, ?side⟩
  case angle =>
    rintro v hv hangle
    obtain ⟨vs, rfl⟩ := List.head?_eq_some_iff.1 hv
    rw [ofVendorValues, ofValues, Argument.bind_split_cons h, Argument.bind_split_cons h,
      bind_assoc]
    congr 1
    funext others
    exact ofArguments_turned hangle others
  case integer =>
    intro n
    exact ⟨(90 - n) % 360, rfl, Int.emod_nonneg _ (by decide), Int.emod_lt_of_pos _ (by decide),
      Int.mod_modEq _ _⟩
  case none =>
    intro hnone
    rw [ofVendorValues, ofValues]
    cases first with
    | nil => rw [Argument.bind_split_nil h, Argument.bind_split_nil h, ofArguments, ofArguments]
    | cons v vs =>
      have hv := hnone v rfl
      rw [Argument.bind_split_cons h, Argument.bind_split_cons h]
      congr 1
      funext others
      refine ofArguments_congr ?_ others
      rw [vendorDirection_of_startsNone hv, direction_of_startsNone hv]
  case side =>
    rintro v s degrees hv hside hdegrees
    obtain ⟨vs, rfl⟩ := List.head?_eq_some_iff.1 hv
    obtain ⟨sides, hsides, hnames, hclause⟩ := exists_clause_of_namedSide hside hdegrees
    refine ⟨sides, hsides, hnames, fun goal clause standard hgoal hwords hstandard => ?_⟩
    exact ofVendorValues_of_clause h hside hdegrees hsides hclause hgoal hstandard hwords

/-- An angle that is turned past zero, a color, and a corner whose sides trade places. -/
theorem vendor_directions_agree_corner :
    let word (name : String) : ComponentValue := .token ⟨.ident name, name⟩
    let comma : ComponentValue := .token ⟨.comma, ","⟩
    let space : ComponentValue := .token ⟨.whitespace, " "⟩
    let angle : ComponentValue := .token ⟨.dimension (.integer 210) "DEG", "210DEG"⟩
    let corner := [word "left", space, word "TOP"]
    let standard := [word "to", space, word "bottom", space, word "right"]
    (Argument.parts [angle, comma, word "red"] = [angle] :: [[word "red"]] ∧ angle.isAngleOrZero ∧
      (ofVendorValues [angle, comma, word "red"]).result =
        .ok ⟨240, [⟨Color.ofInt 0xff0000ff, none⟩]⟩) ∧
    (Argument.parts [word "red"] = [word "red"] :: [] ∧ (word "red").StartsNoDirection ∧
      ofVendorValues [word "red"] = ofValues [word "red"]) ∧
    Argument.parts (corner ++ [comma, word "red"]) =
      [word "left", word "TOP"] :: [[word "red"]] ∧
    (word "left").isKeyword (Side.name .left) ∧
    namedSide [word "left", word "TOP"] = .ok 135 ∧
    [word "to", word "bottom", word "right"].map ComponentValue.keyword? =
      ("to" :: [Side.bottom, .right].map Side.name).map some ∧
    Argument.parts (standard ++ [comma, word "red"]) =
      [word "to", word "bottom", word "right"] :: [[word "red"]] ∧
    ofVendorValues (corner ++ [comma, word "red"]) =
      ofValues (standard ++ [comma, word "red"]) := by
  intro word comma space angle corner standard
  have hangle : Argument.parts [angle, comma, word "red"] = [angle] :: [[word "red"]] := by decide
  have hred : Argument.parts [word "red"] = [word "red"] :: [] := by decide
  have hnone : (word "red").StartsNoDirection :=
    ⟨by decide, by decide +kernel, fun s => by cases s <;> decide +kernel⟩
  have hcorner : Argument.parts (corner ++ [comma, word "red"]) =
      [word "left", word "TOP"] :: [[word "red"]] := by decide
  have hleft : (word "left").isKeyword (Side.name .left) := by decide +kernel
  have hdegrees : namedSide [word "left", word "TOP"] = .ok 135 := by decide +kernel
  have hwords : [word "to", word "bottom", word "right"].map ComponentValue.keyword? =
      ("to" :: [Side.bottom, .right].map Side.name).map some := by decide +kernel
  have hstandard : Argument.parts (standard ++ [comma, word "red"]) =
      [word "to", word "bottom", word "right"] :: [[word "red"]] := by decide
  refine ⟨⟨hangle, rfl, ?_⟩, ⟨hred, hnone, ?_⟩, hcorner, hleft, hdegrees, hwords, hstandard, ?_⟩
  · rw [(vendor_directions_agree hangle).1 angle rfl rfl]
    decide +kernel
  · refine (vendor_directions_agree hred).2.2.2.1 fun v hv => ?_
    obtain rfl := Option.some.inj hv
    exact hnone
  · obtain ⟨sides, -, hnames, hagrees⟩ :=
      (vendor_directions_agree hcorner).2.2.2.2 _ .left 135 rfl hleft hdegrees
    have hsides : sides = [.left, .top] :=
      List.map_injective_iff.2 Side.name_injective (hnames.symm.trans (by decide +kernel))
    subst hsides
    exact hagrees _ _ _ (.inr rfl) hwords hstandard

end LinearGradient

end StyleValue
