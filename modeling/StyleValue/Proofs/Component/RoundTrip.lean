import StyleValue.Proofs.Component.Grouping

/-!
# Grouping the tokens of values

The tokens of well-formed values are grouped into those values again, wherever they stand: in a
group that is open or outside of all groups, and with anything after them. A closing token that
stands alone is a value like any other, unless it closes the innermost group.
-/

set_option autoImplicit false

namespace StyleValue

namespace Grouping

open ComponentValue

def addAll (g : Grouping) (vs : List ComponentValue) : Grouping := vs.foldl add g

theorem closer?_add (g : Grouping) (v : ComponentValue) : (g.add v).closer? = g.closer? := by
  rcases g with ⟨frames, values⟩
  cases frames <;> rfl

theorem addAll_outside (values vs : List ComponentValue) :
    addAll ⟨[], values⟩ vs = ⟨[], values ++ vs⟩ := by
  induction vs generalizing values with
  | nil => simp [addAll]
  | cons v vs ih => simpa [addAll, add] using ih (values ++ [v])

theorem addAll_inside (f : Frame) (frames : List Frame) (values vs : List ComponentValue) :
    addAll ⟨f :: frames, values⟩ vs = ⟨{ f with values := f.values ++ vs } :: frames, values⟩ := by
  induction vs generalizing f with
  | nil => simp [addAll]
  | cons v vs ih => simpa [addAll, add, Frame.add] using ih (f.add v)

/-- A group whose values are grouped again is completed by its closing token. -/
theorem feedAll_group (g : Grouping) (opener : Opener) (openSource closeSource : String)
    (vs : List ComponentValue)
    (h : feedAll ⟨⟨opener, openSource, []⟩ :: g.frames, g.values⟩ (flatList vs) =
      addAll ⟨⟨opener, openSource, []⟩ :: g.frames, g.values⟩ vs) :
    g.feedAll (⟨opener.kind, openSource⟩ :: (flatList vs ++ [⟨opener.closer, closeSource⟩])) =
      g.add (Frame.close ⟨opener, openSource, vs⟩ closeSource) := by
  rw [feedAll_cons, feed_open g _ rfl, feedAll_append, h, addAll_inside, feedAll_cons,
    feed_close _ _ _ _ rfl, List.nil_append]
  rfl

mutual

theorem feedAll_flat : (v : ComponentValue) → v.WellFormed → (g : Grouping) →
    (∀ kind ∈ v.kind?, g.closer? ≠ some kind) → g.feedAll (flat v) = g.add v
  | .token t, hv, g, hne => feed_single g t hv (hne t.kind rfl)
  | .function name openSource values closeSource, hv, g, _ =>
    feedAll_group g (.function name) openSource closeSource values
      (feedAll_flatList values hv.1 _ fun v hmem _ hkind hclose =>
        hv.2 v hmem (hkind.trans hclose.symm))
  | .block bracket openSource values closeSource, hv, g, _ =>
    feedAll_group g (.block bracket) openSource closeSource values
      (feedAll_flatList values hv.1 _ fun v hmem _ hkind hclose =>
        hv.2 v hmem (hkind.trans hclose.symm))

theorem feedAll_flatList : (vs : List ComponentValue) → AllWellFormed vs → (g : Grouping) →
    (∀ v ∈ vs, ∀ kind ∈ v.kind?, g.closer? ≠ some kind) → g.feedAll (flatList vs) = g.addAll vs
  | [], _, _, _ => rfl
  | v :: vs, hvs, g, hne => by
    rw [flatList, feedAll_append, feedAll_flat v hvs.1 g (hne v (by simp)),
      feedAll_flatList vs hvs.2 (g.add v)]
    · rfl
    · intro w hw kind hkind
      rw [closer?_add]
      exact hne w (by simp [hw]) kind hkind

end

end Grouping

namespace ComponentValue

mutual

def bare : ComponentValue → ComponentValue
  | .token t => .token ⟨t.kind, ""⟩
  | .function name _ values _ => .function name "" (bareList values) ""
  | .block bracket _ values _ => .block bracket "" (bareList values) ""

def bareList : List ComponentValue → List ComponentValue
  | [] => []
  | v :: vs => bare v :: bareList vs

end

theorem kind?_bare (v : ComponentValue) : (bare v).kind? = v.kind? := by
  cases v <;> rfl

theorem bareList_eq_map (vs : List ComponentValue) : bareList vs = vs.map bare := by
  induction vs with
  | nil => rfl
  | cons v vs ih => simp [bareList, ih]

theorem forall_bareList (vs : List ComponentValue) (closer : TokenKind) :
    (∀ v ∈ bareList vs, v.kind? ≠ some closer) ↔ ∀ v ∈ vs, v.kind? ≠ some closer := by
  simp [bareList_eq_map, kind?_bare]

mutual

theorem wellFormed_bare : (v : ComponentValue) → ((bare v).WellFormed ↔ v.WellFormed)
  | .token _ => Iff.rfl
  | .function _ _ values _ =>
    and_congr (allWellFormed_bareList values) (forall_bareList values _)
  | .block _ _ values _ =>
    and_congr (allWellFormed_bareList values) (forall_bareList values _)

theorem allWellFormed_bareList : (vs : List ComponentValue) →
    (AllWellFormed (bareList vs) ↔ AllWellFormed vs)
  | [] => Iff.rfl
  | v :: vs => and_congr (wellFormed_bare v) (allWellFormed_bareList vs)

end

mutual

theorem same_bare : (v w : ComponentValue) → same (bare v) w = same v w
  | .token t, w => by cases w <;> rfl
  | .function _ _ values _, w => by
    cases w with
    | function _ _ others _ => rw [bare, same, same, sameList_bareList values others]
    | token | block => rfl
  | .block _ _ values _, w => by
    cases w with
    | block _ _ others _ => rw [bare, same, same, sameList_bareList values others]
    | token | function => rfl

theorem sameList_bareList : (vs ws : List ComponentValue) →
    sameList (bareList vs) ws = sameList vs ws
  | [], ws => rfl
  | v :: vs, [] => rfl
  | v :: vs, w :: ws => by
    rw [bareList, sameList, sameList, same_bare v w, sameList_bareList vs ws]

end

mutual

theorem same_self : (v : ComponentValue) → (∀ t ∈ flat v, t.kind.same t.kind) → same v v
  | .token t, h => h t (by simp [flat])
  | .function _ _ values _, h => by
    have hvalues := sameList_self values fun t ht => h t (by simp [flat, ht])
    simpa [same] using hvalues
  | .block _ _ values _, h => by
    have hvalues := sameList_self values fun t ht => h t (by simp [flat, ht])
    simpa [same] using hvalues

theorem sameList_self : (vs : List ComponentValue) →
    (∀ t ∈ flatList vs, t.kind.same t.kind) → sameList vs vs
  | [], _ => rfl
  | v :: vs, h => by
    have hv := same_self v fun t ht => h t (by simp [flatList, ht])
    have hvs := sameList_self vs fun t ht => h t (by simp [flatList, ht])
    simp [sameList, hv, hvs]

end

/-- Tokens of the kinds of a group are an opening token, those inside, and a closing token. -/
theorem group_of_kinds {opening closing : TokenKind} {inside : List TokenKind} {ts : List Token}
    (h : ts.map Token.kind = opening :: (inside ++ [closing])) :
    ∃ openSource middle closeSource,
      ts = ⟨opening, openSource⟩ :: (middle ++ [⟨closing, closeSource⟩]) ∧
      middle.map Token.kind = inside := by
  obtain ⟨⟨_, openSource⟩, others, rfl, rfl, hothers⟩ := List.map_eq_cons_iff.mp h
  obtain ⟨middle, last, rfl, hmiddle, hlast⟩ := List.map_eq_append_iff.mp hothers
  obtain ⟨⟨_, closeSource⟩, none, rfl, rfl, hnone⟩ := List.map_eq_cons_iff.mp hlast
  obtain rfl := List.map_eq_nil_iff.mp hnone
  exact ⟨openSource, middle, closeSource, rfl, hmiddle⟩

mutual

theorem exists_flat_eq : (v : ComponentValue) → (ts : List Token) →
    ts.map Token.kind = (flat v).map Token.kind → ∃ w, flat w = ts ∧ bare w = bare v
  | .token t, ts, h => by
    obtain ⟨s, others, rfl, hs, hothers⟩ := List.map_eq_cons_iff.mp h
    obtain rfl := List.map_eq_nil_iff.mp hothers
    exact ⟨.token s, rfl, by simp [bare, hs]⟩
  | .function name _ values _, ts, h => by
    rw [flat, List.map_cons, List.map_append] at h
    obtain ⟨openSource, middle, closeSource, rfl, hmiddle⟩ := group_of_kinds h
    obtain ⟨ws, rfl, hbare⟩ := exists_flatList_eq values middle hmiddle
    exact ⟨.function name openSource ws closeSource, rfl, by rw [bare, bare, hbare]⟩
  | .block bracket _ values _, ts, h => by
    rw [flat, List.map_cons, List.map_append] at h
    obtain ⟨openSource, middle, closeSource, rfl, hmiddle⟩ := group_of_kinds h
    obtain ⟨ws, rfl, hbare⟩ := exists_flatList_eq values middle hmiddle
    exact ⟨.block bracket openSource ws closeSource, rfl, by rw [bare, bare, hbare]⟩

theorem exists_flatList_eq : (vs : List ComponentValue) → (ts : List Token) →
    ts.map Token.kind = (flatList vs).map Token.kind →
    ∃ ws, flatList ws = ts ∧ bareList ws = bareList vs
  | [], ts, h => by
    obtain rfl := List.map_eq_nil_iff.mp h
    exact ⟨[], rfl, rfl⟩
  | v :: vs, ts, h => by
    rw [flatList, List.map_append] at h
    obtain ⟨first, others, rfl, hfirst, hothers⟩ := List.map_eq_append_iff.mp h
    obtain ⟨w, hw, hbare⟩ := exists_flat_eq v first hfirst
    obtain ⟨ws, hws, hbares⟩ := exists_flatList_eq vs others hothers
    exact ⟨w :: ws, by rw [flatList, hw, hws], by rw [bareList, bareList, hbare, hbares]⟩

end

end ComponentValue

namespace TokenStream

open ComponentValue

theorem run_values_flatList (vs : List ComponentValue) (h : AllWellFormed vs) :
    values.run (ofTokens (flatList vs)) = ⟨[], .ok vs⟩ := by
  have hgroup : Grouping.start.feedAll (flatList vs) = ⟨[], vs⟩ := by
    rw [Grouping.feedAll_flatList vs h _ (by simp [Grouping.start, Grouping.closer?])]
    exact Grouping.addAll_outside [] vs
  have hreports : (ofTokens (flatList vs)).allReports = [] := by simp [allReports, ofTokens]
  rw [run_values _ rfl, tokens_ofTokens, hgroup, hreports]
  rfl

/-- Tokens of the kinds that well-formed values are written with, whatever their text, are grouped
into the same values, and nothing is reported. Comparison finds them equal as well, unless a token
holds something that is not a number and so differs from itself. -/
theorem values_flat_round_trip (vs : List ComponentValue) (h : AllWellFormed vs) (ts : List Token)
    (hts : ts.map Token.kind = (flatList vs).map Token.kind) :
    ∃ ws, values.run (ofTokens ts) = ⟨[], .ok ws⟩ ∧ bareList ws = bareList vs ∧
      ((∀ t ∈ flatList vs, t.kind.same t.kind) → sameList ws vs) := by
  obtain ⟨ws, rfl, hbare⟩ := exists_flatList_eq vs ts hts
  have hws : AllWellFormed ws := by
    rw [← allWellFormed_bareList, hbare, allWellFormed_bareList]
    exact h
  refine ⟨ws, run_values_flatList ws hws, hbare, ?_⟩
  intro hself
  rw [← sameList_bareList, hbare, sameList_bareList]
  exact sameList_self vs hself

/-- A closing bracket inside of a function and a closing parenthesis outside of all groups. -/
theorem stray_closers_round_trip :
    AllWellFormed [.function "f" "f(" [.token ⟨.closing .square, "]"⟩] ")",
      .token ⟨.closing .parenthesis, ")"⟩] ∧
    ∃ ws, values.run (ofTokens [⟨.function "f", ""⟩, ⟨.closing .square, ""⟩,
        ⟨.closing .parenthesis, ""⟩, ⟨.closing .parenthesis, ""⟩]) = ⟨[], .ok ws⟩ ∧
      sameList ws [.function "f" "f(" [.token ⟨.closing .square, "]"⟩] ")",
        .token ⟨.closing .parenthesis, ")"⟩] := by
  have hwf : AllWellFormed [.function "f" "f(" [.token ⟨.closing .square, "]"⟩] ")",
      .token ⟨.closing .parenthesis, ")"⟩] := by
    simp [AllWellFormed, WellFormed, TokenKind.opens, kind?]
  obtain ⟨ws, hrun, -, hsame⟩ := values_flat_round_trip _ hwf
    [⟨.function "f", ""⟩, ⟨.closing .square, ""⟩, ⟨.closing .parenthesis, ""⟩,
      ⟨.closing .parenthesis, ""⟩] (by simp [flatList, flat])
  exact ⟨hwf, ws, hrun, hsame (by simp [flatList, flat, TokenKind.same])⟩

end TokenStream

end StyleValue
