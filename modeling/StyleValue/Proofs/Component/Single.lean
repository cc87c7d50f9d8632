import StyleValue.Proofs.Component.Grouping
import StyleValue.Proofs.Failure

/-!
# The one value of a text

The single value that tokens are parsed into is made of these tokens and of closing tokens that the
text lacks. There is no such value if there is no token but white space, or more than one value; it
does not fail otherwise.
-/

set_option autoImplicit false

namespace StyleValue

open ComponentValue

namespace StreamParser

variable {α β : Type} {failures : Failure → Prop} {post : α → TokenStream → Prop}

def Ends (failures : Failure → Prop) (post : α → TokenStream → Prop) (p : StreamParser α)
    (s : TokenStream) : Prop :=
  Meets failures (fun a => post a (p s).rest) (p s).outcome.result

theorem Ends.bind {p : StreamParser α} {f : α → StreamParser β} {last : β → TokenStream → Prop}
    {s : TokenStream} (hp : p.Ends failures post s)
    (hf : ∀ a rest, post a rest → (f a).Ends failures last rest) :
    (p >>= f).Ends failures last s := by
  show Meets failures (fun b => last b (StreamParser.bind p f s).rest)
    (StreamParser.bind p f s).outcome.result
  unfold Ends at hp
  cases hresult : (p s).outcome.result with
  | ok a =>
    rw [hresult] at hp
    simp only [StreamParser.bind, hresult]
    exact hf a _ hp
  | error failure =>
    rw [hresult] at hp
    simp only [StreamParser.bind, hresult]
    exact hp

end StreamParser

def ComponentValue.MadeOf (tokens : List Token) (v : ComponentValue) : Prop :=
  ∃ closers : List Token, (∀ t ∈ closers, ∃ bracket, t.kind = .closing bracket) ∧
    (flat v).Sublist (tokens ++ closers)

theorem ComponentValue.MadeOf.mono {ts us : List Token} {v : ComponentValue} (h : v.MadeOf ts)
    (hsub : ts.Sublist us) : v.MadeOf us := by
  obtain ⟨closers, hclosers, hflat⟩ := h
  exact ⟨closers, hclosers, hflat.trans (hsub.append_right closers)⟩

theorem Opener.exists_closer_eq (o : Opener) : ∃ bracket, o.closer = .closing bracket := by
  cases o with
  | function name => exact ⟨.parenthesis, rfl⟩
  | block bracket => exact ⟨bracket, rfl⟩

namespace TokenStream

structure DrawsFrom (tokens : List Token) (s : TokenStream) : Prop where
  fault : s.fault = none
  tokens : s.tokens.Sublist tokens

variable {failures : Failure → Prop} {tokens : List Token} {s : TokenStream}

theorem drawsFrom_empty : DrawsFrom tokens .empty := ⟨rfl, List.nil_sublist _⟩

theorem skipWhitespaceFrom_meets (hs : s.fault = none) (ps : List Pull)
    (hps : (ps.map Pull.token).Sublist tokens) :
    Meets failures (fun _ => DrawsFrom tokens (skipWhitespaceFrom s ps).rest)
      (skipWhitespaceFrom s ps).outcome.result := by
  induction ps with
  | nil =>
    rw [skipWhitespaceFrom, finish, hs]
    exact drawsFrom_empty
  | cons p ps ih =>
    rw [skipWhitespaceFrom]
    split
    · exact ih ((List.sublist_cons_self _ _).trans hps)
    · exact ⟨hs, hps⟩

theorem skipWhitespace_ends (h : DrawsFrom tokens s) :
    skipWhitespace.Ends failures (fun _ rest => DrawsFrom tokens rest) s :=
  skipWhitespaceFrom_meets h.fault s.pulls h.tokens

theorem isEmpty_ends (h : DrawsFrom tokens s) : isEmpty.Ends failures
    (fun ended rest => DrawsFrom tokens rest ∧ (ended = false → rest.pulls ≠ [])) s := by
  have hpeek : peek.Ends failures
      (fun t rest => DrawsFrom tokens rest ∧ (t.isNone = false → rest.pulls ≠ [])) s := by
    unfold StreamParser.Ends peek
    split
    · rw [finish, h.fault]
      exact ⟨drawsFrom_empty, by simp⟩
    · next p ps hpulls =>
      refine ⟨⟨h.fault, ?_⟩, by simp [seen]⟩
      have htokens := h.tokens
      rw [TokenStream.tokens, hpulls] at htokens
      exact htokens
  apply hpeek.bind
  intro t rest hrest
  exact hrest

/-- What completes a value is drawn, unless there is nothing at all to draw. -/
theorem componentFrom_meets (hs : s.fault = none) (frames : List Frame) (ps : List Pull)
    (h : frames ≠ [] ∨ ps ≠ []) :
    Meets failures (fun v => v.MadeOf (Grouping.tokens ⟨frames, []⟩ ++ ps.map Pull.token) ∧
        (componentFrom s frames ps).rest.fault = none ∧
        (componentFrom s frames ps).rest.tokens.Sublist (ps.map Pull.token))
      (componentFrom s frames ps).outcome.result := by
  induction ps generalizing frames with
  | nil =>
    cases frames with
    | nil => simp at h
    | cons inner outer =>
      have hflat := Grouping.flatList_finish ⟨inner :: outer, []⟩
      rw [componentFrom, finish, hs]
      refine ⟨⟨Grouping.missing ⟨inner :: outer, []⟩, ?_, ?_⟩, rfl, List.nil_sublist _⟩
      · intro t ht
        obtain ⟨f, -, rfl⟩ := List.mem_map.1 ht
        exact f.opener.exists_closer_eq
      · have hunwind : flat (inner.unwind outer) = Grouping.tokens ⟨inner :: outer, []⟩ ++
            Grouping.missing ⟨inner :: outer, []⟩ := by
          rw [← flatList_singleton, ← hflat]
          rfl
        rw [List.map_nil, List.append_nil]
        exact hunwind ▸ List.Sublist.refl _
  | cons p ps ih =>
    have htokens := Grouping.tokens_feed ⟨frames, []⟩ p.token
    rw [Grouping.feed] at htokens
    rw [componentFrom]
    cases hfeed : Progress.feed frames p.token with
    | complete v =>
      rw [hfeed] at htokens
      have hflat : flat v = Grouping.tokens ⟨frames, []⟩ ++ [p.token] := by
        simpa [Grouping.tokens] using htokens
      refine ⟨⟨[], by simp, ?_⟩, hs, List.sublist_cons_self _ _⟩
      rw [hflat, List.append_nil, List.map_cons]
      exact (List.singleton_sublist.2 (by simp)).append_left _
    | pending inner outer =>
      rw [hfeed] at htokens
      have hmeets := ih (inner :: outer) (.inl (by simp))
      rw [htokens, List.append_assoc, List.singleton_append] at hmeets
      exact hmeets.weaken fun v hv => ⟨hv.1, hv.2.1, hv.2.2.trans (List.sublist_cons_self _ _)⟩

theorem component_ends (h : DrawsFrom tokens s) (hne : s.pulls ≠ []) :
    component.Ends failures (fun v rest => v.MadeOf tokens ∧ DrawsFrom tokens rest) s := by
  apply (componentFrom_meets h.fault [] s.pulls (.inr hne)).weaken
  rintro v ⟨hv, hfault, htokens⟩
  exact ⟨hv.mono h.tokens, hfault, htokens.trans h.tokens⟩

/-- The one value of tokens is made of them; only text without a value, or with another one after
it, is rejected. -/
theorem value_meets (hfailures : ∀ cause, failures (.rejected cause)) (tokens : List Token) :
    Meets failures (MadeOf tokens) (value.run (.ofTokens tokens)).result := by
  have hstart : DrawsFrom tokens (.ofTokens tokens) := by
    exact ⟨rfl, (tokens_ofTokens tokens).symm ▸ List.Sublist.refl tokens⟩
  have hvalue : value.Ends failures (fun v _ => v.MadeOf tokens) (.ofTokens tokens) := by
    apply (skipWhitespace_ends hstart).bind
    intro _ first hfirst
    apply (isEmpty_ends hfirst).bind
    intro ended first hfirst
    split
    · exact hfailures _
    · next hnonempty =>
      apply (component_ends hfirst.1 (hfirst.2 (by simpa using hnonempty))).bind
      intro v rest hv
      apply (skipWhitespace_ends hv.2).bind
      intro _ rest hrest
      apply (isEmpty_ends hrest).bind
      intro ended rest _
      split
      · exact hv.1
      · exact hfailures _
  exact hvalue

end TokenStream

end StyleValue
