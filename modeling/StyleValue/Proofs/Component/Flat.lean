import StyleValue.Component.Frame

/-!
# Component values as tokens

A value is written as the tokens that it was grouped from, a group with its opening and closing
token. The values that grouping makes are well formed: what opens a group or closes the group
around it is never left as a single token.
-/

set_option autoImplicit false

namespace StyleValue

def TokenKind.opens : TokenKind → Bool
  | .function _ | .opening _ => true
  | _ => false

def Opener.kind : Opener → TokenKind
  | .function name => .function name
  | .block bracket => .opening bracket

theorem Opener.ofKind?_eq_some_iff {kind : TokenKind} {opener : Opener} :
    ofKind? kind = some opener ↔ kind = opener.kind := by
  cases kind <;> cases opener <;> simp [ofKind?, Opener.kind]

theorem Opener.ofKind?_eq_none_iff {kind : TokenKind} :
    ofKind? kind = none ↔ kind.opens = false := by
  cases kind <;> simp [ofKind?, TokenKind.opens]

theorem Opener.kind_ne_closer (o inner : Opener) : o.kind ≠ inner.closer := by
  cases o <;> cases inner <;> simp [Opener.kind, Opener.closer]

namespace ComponentValue

mutual

def flat : ComponentValue → List Token
  | .token t => [t]
  | .function name openSource values closeSource =>
    ⟨.function name, openSource⟩ :: (flatList values ++ [⟨.closing .parenthesis, closeSource⟩])
  | .block bracket openSource values closeSource =>
    ⟨.opening bracket, openSource⟩ :: (flatList values ++ [⟨.closing bracket, closeSource⟩])

def flatList : List ComponentValue → List Token
  | [] => []
  | v :: vs => flat v ++ flatList vs

end

mutual

def WellFormed : ComponentValue → Prop
  | .token t => t.kind.opens = false
  | .function _ _ values _ =>
    AllWellFormed values ∧ ∀ v ∈ values, v.kind? ≠ some (.closing .parenthesis)
  | .block bracket _ values _ =>
    AllWellFormed values ∧ ∀ v ∈ values, v.kind? ≠ some (.closing bracket)

def AllWellFormed : List ComponentValue → Prop
  | [] => True
  | v :: vs => WellFormed v ∧ AllWellFormed vs

end

theorem flatList_append (vs ws : List ComponentValue) :
    flatList (vs ++ ws) = flatList vs ++ flatList ws := by
  induction vs with
  | nil => rfl
  | cons v vs ih => simp [flatList, ih]

@[simp] theorem flatList_singleton (v : ComponentValue) : flatList [v] = flat v := by
  simp [flatList]

theorem allWellFormed_append (vs ws : List ComponentValue) :
    AllWellFormed (vs ++ ws) ↔ AllWellFormed vs ∧ AllWellFormed ws := by
  induction vs with
  | nil => simp [AllWellFormed]
  | cons v vs ih => simp [AllWellFormed, ih, and_assoc]

theorem allWellFormed_concat (vs : List ComponentValue) (v : ComponentValue) :
    AllWellFormed (vs ++ [v]) ↔ AllWellFormed vs ∧ WellFormed v := by
  simp [allWellFormed_append, AllWellFormed]

mutual

theorem source_eq_join_flat : (v : ComponentValue) →
    source v = String.join ((flat v).map Token.source)
  | .token t => by simp [source, flat]
  | .function name openSource values closeSource => by
    rw [source, sources_eq_join_flatList values]
    simp [flat, String.append_assoc]
  | .block bracket openSource values closeSource => by
    rw [source, sources_eq_join_flatList values]
    simp [flat, String.append_assoc]

/-- The text of values is that of their tokens in order. -/
theorem sources_eq_join_flatList : (vs : List ComponentValue) →
    sources vs = String.join ((flatList vs).map Token.source)
  | [] => by simp [sources, flatList]
  | v :: vs => by
    rw [sources, source_eq_join_flat v, sources_eq_join_flatList vs]
    simp [flatList]

end

end ComponentValue

namespace Frame

open ComponentValue

theorem flat_close (f : Frame) (closeSource : String) :
    flat (f.close closeSource) =
      ⟨f.opener.kind, f.source⟩ :: (flatList f.values ++ [⟨f.opener.closer, closeSource⟩]) := by
  rcases f with ⟨opener, source, values⟩
  cases opener <;> rfl

theorem kind?_close (f : Frame) (closeSource : String) : (f.close closeSource).kind? = none := by
  rcases f with ⟨opener, source, values⟩
  cases opener <;> rfl

def WellFormed (f : Frame) : Prop :=
  AllWellFormed f.values ∧ ∀ v ∈ f.values, v.kind? ≠ some f.opener.closer

theorem wellFormed_close (f : Frame) (closeSource : String) :
    (f.close closeSource).WellFormed ↔ f.WellFormed := by
  rcases f with ⟨opener, source, values⟩
  cases opener <;> rfl

end Frame

end StyleValue
