import StyleValue.Proofs.Component.Entry
import StyleValue.Proofs.Component.Reporting
import StyleValue.Proofs.Outcome

/-!
# Reports of unclosed groups

Drawing from a stream reports the groups that its end closes, and it reports them together: either
none is reported and the tokens that are left leave the same groups open, or all are and no token is
left. So the values of a text report all of its unclosed groups, and so does the one value, unless
there are more. Then it stops before it comes to the end.
-/

set_option autoImplicit false

namespace StyleValue

def structural (events : List Event) : List Diagnostic :=
  events.filterMap fun
    | .report d => if d.isStructural then some d else none
    | .register _ => none

@[simp] theorem structural_nil : structural [] = [] := rfl

@[simp] theorem structural_append (first second : List Event) :
    structural (first ++ second) = structural first ++ structural second := List.filterMap_append

@[simp] theorem structural_lexicalEvents (errors : List LexicalError) :
    structural (lexicalEvents errors) = [] := by
  refine List.filterMap_eq_nil_iff.2 fun e he => ?_
  obtain ⟨error, -, rfl⟩ := List.mem_map.1 he
  rfl

def Opener.unterminatedAll (openers : List Opener) : List Diagnostic :=
  openers.map Opener.unterminated

@[simp] theorem structural_unterminatedEvents (frames : List Frame) :
    structural (TokenStream.unterminatedEvents frames) =
      Opener.unterminatedAll (frames.map Frame.opener) := by
  induction frames with
  | nil => rfl
  | cons f frames ih =>
    have hhead : f.opener.unterminated.isStructural = true := by cases f.opener <;> rfl
    rw [TokenStream.unterminatedEvents] at ih ⊢
    simp [structural, Opener.unterminatedAll, hhead] at ih ⊢
    exact ih

namespace Grouping

def unclosed (frames : List Frame) (ts : List Token) : List Opener :=
  (feedAll ⟨frames, []⟩ ts).frames.map Frame.opener

theorem frames_feedAll (g : Grouping) (ts : List Token) :
    (g.feedAll ts).frames = (feedAll ⟨g.frames, []⟩ ts).frames := by
  induction ts generalizing g with
  | nil => rfl
  | cons t ts ih =>
    rw [feedAll_cons, feedAll_cons, ih (g.feed t), ih (feed ⟨g.frames, []⟩ t)]
    cases hfeed : Progress.feed g.frames t <;> simp [feed, hfeed]

theorem unclosed_cons (frames : List Frame) (t : Token) (ts : List Token) :
    unclosed frames (t :: ts) =
      match Progress.feed frames t with
      | .complete _ => unclosed [] ts
      | .pending inner outer => unclosed (inner :: outer) ts := by
  rw [unclosed, feedAll_cons, frames_feedAll]
  cases hfeed : Progress.feed frames t <;> simp [feed, hfeed, unclosed]

end Grouping

open Grouping

def TokenStream.unclosed (s : TokenStream) : List Opener := Grouping.unclosed [] s.tokens

variable {α β : Type}

structure Step.Accounts (openers : List Opener) (step : Step α) : Prop where
  fault : step.rest.fault = none
  reports : structural step.outcome.events = [] ∧ step.rest.unclosed = openers ∨
    structural step.outcome.events = Opener.unterminatedAll openers ∧ step.rest = .empty
  surplus : step.outcome.result = reject .surplusValue → step.rest ≠ .empty

theorem Step.Accounts.after {openers : List Opener} {step : Step α} (h : step.Accounts openers)
    (errors : List LexicalError) : (step.after (lexicalEvents errors)).Accounts openers := by
  refine ⟨h.fault, ?_, h.surplus⟩
  simpa [Step.after] using h.reports

theorem Step.accounts_of_ok {openers : List Opener} {step : Step α} {a : α}
    (hfault : step.rest.fault = none) (hok : step.outcome.result = .ok a)
    (hevents : structural step.outcome.events = []) (hopen : step.rest.unclosed = openers) :
    step.Accounts openers := by
  refine ⟨hfault, .inl ⟨hevents, hopen⟩, fun hsurplus => ?_⟩
  rw [hok] at hsurplus
  cases hsurplus

namespace StreamParser

structure Accounts (p : StreamParser α) (s : TokenStream) : Prop where
  step : (p s).Accounts s.unclosed
  ended : s = .empty → (p s).rest = .empty

variable {p : StreamParser α} {s : TokenStream}

theorem accounts_pure (h : s.fault = none) (a : α) : Accounts (pure a) s :=
  ⟨Step.accounts_of_ok h rfl rfl rfl, fun hs => hs⟩

theorem accounts_reject (h : s.fault = none) (cause : Rejection)
    (hcause : cause = .surplusValue → s ≠ .empty) : Accounts (reject cause : StreamParser α) s := by
  exact ⟨⟨h, .inl ⟨rfl, rfl⟩, fun hresult => hcause (eq_of_reject_eq hresult)⟩, fun hs => hs⟩

theorem Accounts.bind {f : α → StreamParser β} (hp : p.Accounts s)
    (hf : ∀ a, (p s).outcome.result = .ok a → (f a).Accounts (p s).rest) :
    (p >>= f).Accounts s := by
  have hfirst := hp.step
  cases hok : (p s).outcome.result with
  | error failure =>
    have heq := bind_of_error hok f
    refine ⟨?_, ?_⟩
    · rw [heq]
      refine ⟨hfirst.fault, hfirst.reports, fun hresult => hfirst.surplus ?_⟩
      cases hresult
      exact hok
    · rw [heq]
      exact hp.ended
  | ok a =>
    have hthen := hf a hok
    have hsecond := hthen.step
    have heq := bind_of_ok hok f
    refine ⟨?_, ?_⟩
    · rw [heq]
      refine ⟨hsecond.fault, ?_, hsecond.surplus⟩
      have hevents : structural (((f a (p s).rest).after (p s).outcome.events).outcome.events) =
          structural (p s).outcome.events ++ structural (f a (p s).rest).outcome.events :=
        structural_append _ _
      rw [hevents]
      rcases hfirst.reports with ⟨hnone, hopen⟩ | ⟨hall, hend⟩
      · rw [hnone, ← hopen]
        exact hsecond.reports
      · -- at the end of the stream nothing is left to report
        have hnothing : structural (f a (p s).rest).outcome.events = [] := by
          rcases hsecond.reports with ⟨hnone, -⟩ | ⟨hnone, -⟩
          · exact hnone
          · rw [hnone, hend]
            rfl
        rw [hall, hnothing, List.append_nil]
        exact .inr ⟨rfl, hthen.ended hend⟩
    · rw [heq]
      exact fun hs => hthen.ended (hp.ended hs)

end StreamParser

namespace TokenStream

variable {s : TokenStream}

theorem finish_accounts (h : s.fault = none) (frames : List Frame) {onEnd : Outcome α}
    (hevents : structural onEnd.events = Opener.unterminatedAll (frames.map Frame.opener))
    (hresult : onEnd.result ≠ reject .surplusValue) :
    (s.finish onEnd).Accounts (frames.map Frame.opener) := by
  rw [finish, h]
  refine ⟨rfl, .inr ⟨?_, rfl⟩, fun hsurplus => absurd hsurplus hresult⟩
  simpa using hevents

theorem peek_accounts (h : s.fault = none) : peek.Accounts s := by
  rcases s with ⟨_ | ⟨p, ps⟩, reports, fault⟩
  · exact ⟨finish_accounts h [] rfl nofun, fun _ => rest_finish _ _⟩
  · exact ⟨Step.accounts_of_ok h rfl (structural_lexicalEvents _) rfl, nofun⟩

theorem isEmpty_accounts (h : s.fault = none) : isEmpty.Accounts s :=
  (peek_accounts h).bind fun _ _ => StreamParser.accounts_pure (peek_accounts h).step.fault _

theorem skipWhitespaceFrom_accounts (h : s.fault = none) (ps : List Pull) :
    (skipWhitespaceFrom s ps).Accounts (Grouping.unclosed [] (ps.map Pull.token)) := by
  induction ps with
  | nil => exact finish_accounts h [] rfl (by decide)
  | cons p ps ih =>
    rw [skipWhitespaceFrom]
    split
    · next hspace =>
      have hfeed : Progress.feed [] p.token = .complete (.token p.token) := by
        rw [Progress.feed, Progress.enter, hspace]
        rfl
      rw [List.map_cons, unclosed_cons, hfeed]
      exact ih.after p.reports
    · exact Step.accounts_of_ok h rfl (structural_lexicalEvents _) rfl

theorem skipWhitespace_accounts (h : s.fault = none) : skipWhitespace.Accounts s := by
  refine ⟨skipWhitespaceFrom_accounts h s.pulls, ?_⟩
  rintro rfl
  rfl

theorem componentFrom_accounts (h : s.fault = none) (frames : List Frame) (ps : List Pull) :
    (componentFrom s frames ps).Accounts (Grouping.unclosed frames (ps.map Pull.token)) := by
  induction ps generalizing frames with
  | nil =>
    apply finish_accounts h frames
    · cases frames with
      | nil => rfl
      | cons inner outer => exact structural_unterminatedEvents _
    · cases frames <;> intro hsurplus <;> cases hsurplus
  | cons p ps ih =>
    rw [componentFrom, List.map_cons, unclosed_cons]
    cases hfeed : Progress.feed frames p.token with
    | complete v => exact Step.accounts_of_ok h rfl (structural_lexicalEvents _) rfl
    | pending inner outer => exact (ih (inner :: outer)).after p.reports

theorem component_accounts (h : s.fault = none) : component.Accounts s := by
  refine ⟨componentFrom_accounts h [] s.pulls, ?_⟩
  rintro rfl
  rfl

theorem isEmpty_rest (h : s.fault = none) (hmore : (isEmpty s).outcome.result = .ok false) :
    (isEmpty s).rest ≠ .empty := by
  rcases s with ⟨_ | ⟨p, ps⟩, reports, fault⟩
  · obtain rfl : fault = none := h
    cases hmore
  · nofun

theorem value_accounts (h : s.fault = none) : value.Accounts s := by
  apply (skipWhitespace_accounts h).bind
  intro _ _
  have hspaced := (skipWhitespace_accounts h).step.fault
  apply (isEmpty_accounts hspaced).bind
  intro ended _
  have hseen := (isEmpty_accounts hspaced).step.fault
  cases ended with
  | true => exact (StreamParser.accounts_reject hseen .noValue nofun).bind fun _ hok => nomatch hok
  | false =>
    apply (component_accounts hseen).bind
    intro v _
    have hdrawn := (component_accounts hseen).step.fault
    apply (skipWhitespace_accounts hdrawn).bind
    intro _ _
    have hbehind := (skipWhitespace_accounts hdrawn).step.fault
    apply (isEmpty_accounts hbehind).bind
    intro ended hended
    have hlast := (isEmpty_accounts hbehind).step.fault
    cases ended with
    | true => exact StreamParser.accounts_pure hlast v
    | false => exact StreamParser.accounts_reject hlast _ fun _ => isEmpty_rest hbehind hended

/-- The one value reports all unclosed groups, or none if there are more values. -/
theorem structural_run_value (h : s.fault = none) :
    structural (value.run s).events =
      if (value.run s).result = reject .surplusValue then []
      else Opener.unterminatedAll s.unclosed := by
  have hstep := (value_accounts h).step
  have hleaves := value_leaves s
  unfold StreamParser.Leaves at hleaves
  split
  · next hsurplus =>
    rcases hstep.reports with ⟨hnone, -⟩ | ⟨-, hend⟩
    · exact hnone
    · exact absurd hend (hstep.surplus hsurplus)
  · next hsurplus =>
    have hend : (value s).rest = .empty := by
      cases hresult : (value s).outcome.result with
      | ok v =>
        rw [hresult] at hleaves
        exact hleaves
      | error failure =>
        rw [hresult] at hleaves
        refine hleaves.resolve_left ?_
        rintro rfl
        exact hsurplus hresult
    rcases hstep.reports with ⟨hnone, hopen⟩ | ⟨hall, -⟩
    · rw [hend] at hopen
      rw [← hopen]
      exact hnone
    · exact hall

/-- All values report all unclosed groups. -/
theorem structural_run_values (h : s.fault = none) :
    structural (values.run s).events = Opener.unterminatedAll s.unclosed := by
  rw [run_values s h]
  simp [unclosed, Grouping.unclosed, Grouping.start]

end TokenStream

end StyleValue
