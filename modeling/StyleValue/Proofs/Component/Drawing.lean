import StyleValue.Proofs.Component.Single

/-!
# Values that a stream offers

A stream that no fault ends offers the values that its tokens are grouped into. Whatever is drawn
from it is drawn from the front of these values: the next value, white space, or the values before
a token to stop at. So all ways to draw cut the tokens at the same places.
-/

set_option autoImplicit false

namespace StyleValue

open ComponentValue

namespace StreamParser

variable {α β : Type} {failures : Failure → Prop} {post : α → TokenStream → Prop}
  {p q : StreamParser α} {s t : TokenStream}

theorem bind_of_ok {a : α} (h : (p s).outcome.result = .ok a) (f : α → StreamParser β) :
    (p >>= f) s = (f a (p s).rest).after (p s).outcome.events := by
  show StreamParser.bind p f s = _
  simp only [StreamParser.bind, h]

theorem bind_of_error {failure : Failure} (h : (p s).outcome.result = .error failure)
    (f : α → StreamParser β) :
    (p >>= f) s = ⟨⟨(p s).outcome.events, .error failure⟩, (p s).rest⟩ := by
  show StreamParser.bind p f s = _
  simp only [StreamParser.bind, h]

theorem Ends.and_rest (h : p.Ends failures post s) (property : TokenStream → Prop)
    (hrest : property (p s).rest) :
    p.Ends failures (fun a rest => post a rest ∧ property rest) s :=
  h.weaken fun _ ha => ⟨ha, hrest⟩

theorem Ends.of_eq (h : q.Ends failures post t) (heq : p s = q t) : p.Ends failures post s := by
  unfold Ends
  rw [heq]
  exact h

end StreamParser

namespace Grouping

def completed (frames : List Frame) (ts : List Token) : List ComponentValue :=
  (feedAll ⟨frames, []⟩ ts).finish

theorem finish_feedAll (g : Grouping) (ts : List Token) :
    (g.feedAll ts).finish = g.values ++ completed g.frames ts := by
  induction ts generalizing g with
  | nil =>
    rcases g with ⟨frames, values⟩
    cases frames <;> simp [feedAll, completed, finish]
  | cons t ts ih =>
    rw [completed, feedAll_cons, feedAll_cons, ih (g.feed t), ih (feed ⟨g.frames, []⟩ t)]
    cases hfeed : Progress.feed g.frames t <;> simp [feed, hfeed]

theorem completed_cons (frames : List Frame) (t : Token) (ts : List Token) :
    completed frames (t :: ts) =
      match Progress.feed frames t with
      | .complete v => v :: completed [] ts
      | .pending inner outer => completed (inner :: outer) ts := by
  rw [completed, feedAll_cons, finish_feedAll]
  cases hfeed : Progress.feed frames t <;> simp [feed, hfeed]

theorem completed_single (t : Token) (ts : List Token) (h : t.kind.opens = false) :
    completed [] (t :: ts) = .token t :: completed [] ts := by
  rw [completed_cons, Progress.feed, Progress.enter, Opener.ofKind?_eq_none_iff.2 h]
  rfl

/-- What is still open becomes a group, which is the next value. -/
theorem completed_pending (inner : Frame) (outer : List Frame) (ts : List Token) :
    ∃ v vs, completed (inner :: outer) ts = v :: vs ∧ v.kind? = none := by
  induction ts generalizing inner outer with
  | nil =>
    refine ⟨inner.unwind outer, [], rfl, ?_⟩
    induction outer generalizing inner with
    | nil => exact Frame.kind?_close inner ""
    | cons next outer ih => exact ih (next.add (inner.close ""))
  | cons t ts ih =>
    rcases feed_cases ⟨inner :: outer, []⟩ t with ⟨opener, -, hfeed⟩ | ⟨first, others, hframes, -, hfeed⟩ |
      ⟨-, -, hfeed⟩
    · rw [completed, feedAll_cons, hfeed]
      exact ih _ _
    · obtain ⟨rfl, rfl⟩ := List.cons.inj hframes
      rw [completed, feedAll_cons, hfeed]
      cases outer with
      | nil =>
        rw [finish_feedAll]
        exact ⟨inner.close t.source, _, rfl, Frame.kind?_close inner _⟩
      | cons next outer => exact ih _ _
    · rw [completed, feedAll_cons, hfeed]
      exact ih _ _

theorem completed_opening (t : Token) (ts : List Token) (h : t.kind.opens) :
    ∃ v vs, completed [] (t :: ts) = v :: vs ∧ v.kind? = none := by
  cases hopen : Opener.ofKind? t.kind with
  | none => rw [Opener.ofKind?_eq_none_iff.1 hopen] at h; cases h
  | some opener =>
    rw [completed, feedAll_cons, feed_open _ _ (Opener.ofKind?_eq_some_iff.1 hopen)]
    exact completed_pending _ _ ts

end Grouping

open Grouping

def ComponentValue.passes (stop : TokenKind → Bool) (v : ComponentValue) : Bool :=
  !v.kind?.any stop

namespace TokenStream

structure Offers (vs : List ComponentValue) (s : TokenStream) : Prop where
  fault : s.fault = none
  values : completed [] s.tokens = vs

variable {failures : Failure → Prop} {vs : List ComponentValue} {s : TokenStream}

theorem offers_empty : Offers [] .empty := ⟨rfl, rfl⟩

theorem offers_ofTokens (ts : List Token) : (ofTokens ts).Offers (completed [] ts) :=
  ⟨rfl, by rw [tokens_ofTokens]⟩

/-- There is a value as long as there is a token. -/
theorem Offers.eq_nil_iff (h : s.Offers vs) : vs = [] ↔ s.pulls = [] := by
  rw [← h.values, TokenStream.tokens]
  cases s.pulls with
  | nil => simp [completed, feedAll, Grouping.finish]
  | cons p ps =>
    have hne : completed [] (p.token :: ps.map Pull.token) ≠ [] := by
      cases hopens : p.token.kind.opens with
      | false => rw [completed_single _ _ hopens]; simp
      | true =>
        obtain ⟨v, vs, heq, -⟩ := completed_opening p.token (ps.map Pull.token) hopens
        rw [heq]; simp
    simpa using hne

theorem skipWhitespaceFrom_offers (hs : s.fault = none) (ps : List Pull) :
    Meets failures (fun _ => (skipWhitespaceFrom s ps).rest.Offers
        ((completed [] (ps.map Pull.token)).dropWhile ComponentValue.isWhitespace))
      (skipWhitespaceFrom s ps).outcome.result := by
  induction ps with
  | nil =>
    rw [skipWhitespaceFrom, finish, hs]
    exact offers_empty
  | cons p ps ih =>
    rw [skipWhitespaceFrom, List.map_cons]
    split
    · next hspace =>
      have hopens : p.token.kind.opens = false := by rw [hspace]; rfl
      have hwhite : (ComponentValue.token p.token).isWhitespace = true := by
        simp [ComponentValue.isWhitespace, kind?, hspace]
      rw [completed_single _ _ hopens, List.dropWhile_cons_of_pos hwhite]
      exact ih
    · next hspace =>
      have hstay : (completed [] (p.token :: ps.map Pull.token)).dropWhile ComponentValue.isWhitespace =
          completed [] (p.token :: ps.map Pull.token) := by
        cases hopens : p.token.kind.opens with
        | false =>
          rw [completed_single _ _ hopens, List.dropWhile_cons_of_neg]
          simpa [ComponentValue.isWhitespace, kind?] using hspace
        | true =>
          obtain ⟨v, vs, heq, hkind⟩ := completed_opening p.token (ps.map Pull.token) hopens
          rw [heq, List.dropWhile_cons_of_neg]
          simp [ComponentValue.isWhitespace, hkind]
      exact ⟨hs, hstay.symm⟩

theorem skipWhitespace_offers (h : s.Offers vs) : skipWhitespace.Ends failures
    (fun _ rest => rest.Offers (vs.dropWhile ComponentValue.isWhitespace)) s := by
  rw [← h.values]
  exact skipWhitespaceFrom_offers h.fault s.pulls

theorem isEmpty_offers (h : s.Offers vs) :
    isEmpty.Ends failures (fun ended rest => ended = vs.isEmpty ∧ rest.Offers vs) s := by
  have hpeek : peek.Ends failures (fun t rest => t.isNone = vs.isEmpty ∧ rest.Offers vs) s := by
    have hnil := h.eq_nil_iff
    unfold StreamParser.Ends peek
    split
    · next hpulls =>
      obtain rfl := hnil.2 hpulls
      rw [finish, h.fault]
      exact ⟨rfl, offers_empty⟩
    · next p ps hpulls =>
      have hvalues := h.values
      rw [TokenStream.tokens, hpulls] at hvalues
      refine ⟨?_, h.fault, hvalues⟩
      have hne : vs ≠ [] := fun hvs => by simp [hpulls] at hnil; exact hnil hvs
      simp [hne]
  apply hpeek.bind
  intro t rest hrest
  exact hrest

theorem componentFrom_offers (hs : s.fault = none) (frames : List Frame) (ps : List Pull)
    {v : ComponentValue} (h : completed frames (ps.map Pull.token) = v :: vs) :
    Meets failures (fun w => w = v ∧ (componentFrom s frames ps).rest.Offers vs)
      (componentFrom s frames ps).outcome.result := by
  induction ps generalizing frames with
  | nil =>
    cases frames with
    | nil => cases h
    | cons inner outer =>
      rw [componentFrom, finish, hs]
      obtain ⟨hv, rfl⟩ := List.cons.inj h
      exact ⟨hv, offers_empty⟩
  | cons p ps ih =>
    rw [List.map_cons, completed_cons] at h
    rw [componentFrom]
    cases hfeed : Progress.feed frames p.token with
    | complete w =>
      rw [hfeed] at h
      obtain ⟨rfl, hvs⟩ := List.cons.inj h
      exact ⟨rfl, hs, hvs⟩
    | pending inner outer =>
      rw [hfeed] at h
      exact ih (inner :: outer) h

theorem component_offers {v : ComponentValue} (h : s.Offers (v :: vs)) :
    component.Ends failures (fun w rest => w = v ∧ rest.Offers vs) s :=
  componentFrom_offers h.fault [] s.pulls h.values

/-- A value that a token completes is that token, outside of all groups, or else a group. -/
theorem kind?_of_complete {frames : List Frame} {t : Token} {v : ComponentValue}
    (h : Progress.feed frames t = .complete v) : frames = [] ∧ v = .token t ∨ v.kind? = none := by
  unfold Progress.feed Progress.enter at h
  split at h
  · split at h
    · cases h
    · cases h
      exact .inl ⟨rfl, rfl⟩
  · next inner outer =>
    split at h
    · cases outer with
      | nil =>
        cases h
        exact .inr (Frame.kind?_close inner _)
      | cons => cases h
    · split at h <;> cases h

/-- Values are drawn up to one of a kind to stop at. A group that is open already is drawn whatever
is in it, so that kinds to stop at must not open a group. -/
theorem valuesFrom_offers (hs : s.fault = none) {stop : TokenKind → Bool}
    (hstop : ∀ kind, stop kind → kind.opens = false) (frames : List Frame)
    (drawn : List ComponentValue) (ps : List Pull)
    (h : completed frames (ps.map Pull.token) = vs) :
    Meets failures (fun ws => ws = drawn ++ vs.takeWhile (passes stop) ∧
        (valuesFrom s stop frames drawn ps).rest.Offers (vs.dropWhile (passes stop)))
      (valuesFrom s stop frames drawn ps).outcome.result := by
  induction ps generalizing frames drawn vs with
  | nil =>
    subst h
    cases frames with
    | nil =>
      rw [valuesFrom, finish, hs]
      exact ⟨(List.append_nil drawn).symm, offers_empty⟩
    | cons inner outer =>
      obtain ⟨v, vs, heq, hkind⟩ := completed_pending inner outer []
      obtain ⟨rfl, rfl⟩ := List.cons.inj heq
      have hpass : passes stop (inner.unwind outer) = true := by simp [passes, hkind]
      rw [valuesFrom, finish, hs, List.map_nil, heq, List.takeWhile_cons_of_pos hpass,
        List.dropWhile_cons_of_pos hpass]
      exact ⟨rfl, offers_empty⟩
  | cons p ps ih =>
    rw [valuesFrom]
    split
    · next hhere =>
      obtain ⟨hframes, hkind⟩ := Bool.and_eq_true_iff.1 hhere
      obtain rfl := List.isEmpty_iff.1 hframes
      have hblock : ¬ passes stop (.token p.token) = true := by simp [passes, kind?, hkind]
      rw [List.map_cons, completed_single _ _ (hstop _ hkind)] at h
      subst h
      rw [List.takeWhile_cons_of_neg hblock, List.dropWhile_cons_of_neg hblock]
      exact ⟨(List.append_nil drawn).symm, hs, completed_single _ _ (hstop _ hkind)⟩
    · next hhere =>
      rw [List.map_cons, completed_cons] at h
      cases hfeed : Progress.feed frames p.token with
      | pending inner outer =>
        rw [hfeed] at h
        exact ih (inner :: outer) drawn h
      | complete v =>
        rw [hfeed] at h
        dsimp only at h ⊢
        subst h
        have hpass : passes stop v = true := by
          rcases kind?_of_complete hfeed with ⟨rfl, rfl⟩ | hkind
          · simpa [passes, kind?] using hhere
          · simp [passes, hkind]
        rw [List.takeWhile_cons_of_pos hpass, List.dropWhile_cons_of_pos hpass,
          List.append_cons]
        exact ih [] (drawn ++ [v]) rfl

theorem valuesUntil_offers (h : s.Offers vs) (stop : TokenKind → Bool)
    (hstop : ∀ kind, stop kind → kind.opens = false) : (valuesUntil stop).Ends failures
      (fun ws rest => ws = vs.takeWhile (passes stop) ∧
        rest.Offers (vs.dropWhile (passes stop))) s :=
  valuesFrom_offers h.fault hstop [] [] s.pulls h.values

def othersAfter (vs : List ComponentValue) : StreamParser (List (List ComponentValue)) := fun s =>
  match s.pulls with
  | [] => (return [trimEnd vs] : StreamParser (List (List ComponentValue))) s
  | _ :: ps => (do return trimEnd vs :: (← groups) : StreamParser _) { s with pulls := ps }

theorem othersAfter_end {s : TokenStream} (h : s.pulls = []) (vs : List ComponentValue) :
    othersAfter vs s = ⟨pure [trimEnd vs], s⟩ := by
  simp only [othersAfter, h]
  rfl

theorem othersAfter_comma {s : TokenStream} {p : Pull} {ps : List Pull} (h : s.pulls = p :: ps)
    (vs : List ComponentValue) : othersAfter vs s =
      (do return trimEnd vs :: (← groups) : StreamParser _) { s with pulls := ps } := by
  simp only [othersAfter, h]

theorem groups_eq : groups = (do
    skipWhitespace
    othersAfter (← valuesUntil (· == .comma)) : StreamParser (List (List ComponentValue))) := by
  funext s
  rw [groups]
  dsimp only
  cases hspaced : (skipWhitespaceFrom s s.pulls).outcome.result with
  | error failure => rw [StreamParser.bind_of_error (p := skipWhitespace) hspaced]; rfl
  | ok =>
    rw [StreamParser.bind_of_ok (p := skipWhitespace) hspaced]
    simp only [skipWhitespace]
    generalize (skipWhitespaceFrom s s.pulls).rest = first
    cases hpart : (valuesUntil (· == .comma) first).outcome.result with
    | error failure => rw [StreamParser.bind_of_error hpart]; rfl
    | ok vs =>
      rw [StreamParser.bind_of_ok hpart, Step.after_after, othersAfter]
      simp only []
      generalize (valuesUntil (· == .comma) first).rest = rest
      rcases rest with ⟨_ | ⟨p, ps⟩, reports, fault⟩
      · simp [Step.after, Outcome.after, pure, StreamParser.pure, Outcome.pure]
      · dsimp only
        cases hothers : (groups ⟨ps, reports, fault⟩).outcome.result with
        | error failure =>
          rw [StreamParser.bind_of_error hothers]
          rfl
        | ok gs =>
          rw [StreamParser.bind_of_ok hothers]
          simp [Step.after, Outcome.after, pure, StreamParser.pure, Outcome.pure, Except.map]

end TokenStream

end StyleValue
