import StyleValue.Proofs.Component.Drawing

/-!
# Errors reported while drawing

Drawing from a stream reports the errors of the text as it comes to them, and these make no
difference for what is drawn. The errors reported, and those of the tokens that are left, are always
all errors of the text. Only the one value of a text leaves tokens behind, and only when it is not
the only one.
-/

set_option autoImplicit false

namespace StyleValue

def lexicalErrors (events : List Event) : List LexicalError :=
  events.filterMap fun
    | .report (.lexical error) => some error
    | _ => none

@[simp] theorem lexicalErrors_nil : lexicalErrors [] = [] := rfl

@[simp] theorem lexicalErrors_append (first second : List Event) :
    lexicalErrors (first ++ second) = lexicalErrors first ++ lexicalErrors second :=
  List.filterMap_append

@[simp] theorem lexicalErrors_lexicalEvents (errors : List LexicalError) :
    lexicalErrors (lexicalEvents errors) = errors := by
  rw [lexicalErrors, lexicalEvents, List.filterMap_map]
  exact List.filterMap_some

@[simp] theorem lexicalErrors_unterminatedEvents (frames : List Frame) :
    lexicalErrors (TokenStream.unterminatedEvents frames) = [] := by
  unfold lexicalErrors TokenStream.unterminatedEvents
  rw [List.filterMap_map, List.filterMap_eq_nil_iff]
  intro frame _
  cases h : frame.opener <;> simp [h, Opener.unterminated]

variable {α β : Type}

structure Step.Relays (errors : List LexicalError) (silent step : Step α) : Prop where
  errors : lexicalErrors step.outcome.events ++ step.rest.allReports = errors
  result : silent.outcome.result = step.outcome.result
  rest : silent.rest = step.rest.unreported

theorem Step.Relays.after {errors : List LexicalError} {silent step : Step α}
    (h : Relays errors silent step) (first : List LexicalError) :
    Relays (first ++ errors) (silent.after (lexicalEvents [])) (step.after (lexicalEvents first)) := by
  refine ⟨?_, h.result, h.rest⟩
  rw [← h.errors]
  simp [Step.after]

namespace StreamParser

def Relays (p : StreamParser α) (s : TokenStream) : Prop :=
  Step.Relays s.allReports (p s.unreported) (p s)

variable {p : StreamParser α} {s : TokenStream}

theorem relays_pure (a : α) : Relays (pure a) s := ⟨rfl, rfl, rfl⟩

theorem relays_reject (cause : Rejection) : Relays (reject cause : StreamParser α) s :=
  ⟨rfl, rfl, rfl⟩

theorem Relays.bind {f : α → StreamParser β} (hp : p.Relays s)
    (hf : ∀ a, (p s).outcome.result = .ok a → (f a).Relays (p s).rest) : (p >>= f).Relays s := by
  have hresult := hp.result
  unfold Relays
  cases hok : (p s).outcome.result with
  | error failure =>
    rw [hok] at hresult
    rw [bind_of_error hok, bind_of_error hresult]
    exact ⟨hp.errors, rfl, hp.rest⟩
  | ok a =>
    rw [hok] at hresult
    have hthen := hf a hok
    rw [bind_of_ok hok, bind_of_ok hresult, hp.rest]
    refine ⟨?_, hthen.result, hthen.rest⟩
    rw [← hp.errors, ← hthen.errors]
    simp [Step.after]

end StreamParser

namespace TokenStream

variable {s : TokenStream}

def silence (ps : List Pull) : List Pull := ps.map fun p => ⟨[], p.token⟩

theorem finish_relays (s : TokenStream) {onEnd : Outcome α} (h : lexicalErrors onEnd.events = []) :
    Step.Relays s.reports (s.unreported.finish onEnd) (s.finish onEnd) := by
  rcases s with ⟨pulls, reports, _ | fault⟩
  · exact ⟨by simp [finish, h, empty, allReports], rfl, rfl⟩
  · exact ⟨by simp [finish, empty, allReports], rfl, rfl⟩

theorem peek_relays (s : TokenStream) : peek.Relays s := by
  rcases s with ⟨_ | ⟨p, ps⟩, reports, fault⟩
  · exact finish_relays ⟨[], reports, fault⟩ rfl
  · exact ⟨by simp [peek, seen, allReports], rfl, rfl⟩

theorem isEmpty_relays (s : TokenStream) : isEmpty.Relays s :=
  (peek_relays s).bind fun _ _ => StreamParser.relays_pure _

theorem skipWhitespaceFrom_relays (s : TokenStream) (ps : List Pull) :
    Step.Relays (ps.flatMap Pull.reports ++ s.reports)
      (skipWhitespaceFrom s.unreported (silence ps)) (skipWhitespaceFrom s ps) := by
  induction ps with
  | nil => exact finish_relays s rfl
  | cons p ps ih =>
    by_cases hspace : p.token.kind = .whitespace
    · simpa [skipWhitespaceFrom, silence, hspace] using ih.after p.reports
    · refine ⟨?_, ?_, ?_⟩ <;>
        simp [skipWhitespaceFrom, silence, hspace, seen, allReports, unreported]

theorem skipWhitespace_relays (s : TokenStream) : skipWhitespace.Relays s :=
  skipWhitespaceFrom_relays s s.pulls

theorem componentFrom_relays (s : TokenStream) (frames : List Frame) (ps : List Pull) :
    Step.Relays (ps.flatMap Pull.reports ++ s.reports)
      (componentFrom s.unreported frames (silence ps)) (componentFrom s frames ps) := by
  induction ps generalizing frames with
  | nil =>
    apply finish_relays s
    cases frames <;> simp [Outcome.fail]
  | cons p ps ih =>
    cases hfeed : Progress.feed frames p.token with
    | complete v =>
      refine ⟨?_, ?_, ?_⟩ <;> simp [componentFrom, silence, hfeed, allReports, unreported]
    | pending inner outer =>
      simpa [componentFrom, silence, hfeed] using (ih (inner :: outer)).after p.reports

theorem component_relays (s : TokenStream) : component.Relays s :=
  componentFrom_relays s [] s.pulls

theorem valuesFrom_relays (s : TokenStream) (stop : TokenKind → Bool) (frames : List Frame)
    (drawn : List ComponentValue) (ps : List Pull) :
    Step.Relays (ps.flatMap Pull.reports ++ s.reports)
      (valuesFrom s.unreported stop frames drawn (silence ps))
      (valuesFrom s stop frames drawn ps) := by
  induction ps generalizing frames drawn with
  | nil =>
    apply finish_relays s
    cases frames <;> simp [pure, Outcome.pure]
  | cons p ps ih =>
    by_cases hhere : (frames.isEmpty && stop p.token.kind) = true
    · refine ⟨?_, ?_, ?_⟩ <;>
        simp [valuesFrom, silence, hhere, seen, allReports, unreported]
    · cases hfeed : Progress.feed frames p.token with
      | complete v =>
        simpa [valuesFrom, silence, hhere, hfeed] using (ih [] (drawn ++ [v])).after p.reports
      | pending inner outer =>
        simpa [valuesFrom, silence, hhere, hfeed] using (ih (inner :: outer) drawn).after p.reports

theorem valuesUntil_relays (stop : TokenKind → Bool) (s : TokenStream) :
    (valuesUntil stop).Relays s :=
  valuesFrom_relays s stop [] [] s.pulls

inductive Noticed : TokenStream → Prop
  | ended : Noticed .empty
  | next (token : Token) (ps : List Pull) (reports : List LexicalError) (fault : Option Fault) :
    Noticed ⟨⟨[], token⟩ :: ps, reports, fault⟩

end TokenStream

def Step.Settles (step : Step α) : Prop :=
  Meets (fun _ => step.rest = .empty) (fun _ => step.rest.Noticed) step.outcome.result

theorem Step.Settles.noticed {step : Step α} (h : step.Settles) : step.rest.Noticed := by
  unfold Settles at h
  cases hresult : step.outcome.result with
  | ok a =>
    rw [hresult] at h
    exact h
  | error failure =>
    rw [hresult] at h
    rw [show step.rest = .empty from h]
    exact .ended

namespace StreamParser

def Leaves (excepted : Failure → Prop) (post : α → TokenStream → Prop) (p : StreamParser α)
    (s : TokenStream) : Prop :=
  Meets (fun failure => excepted failure ∨ (p s).rest = .empty) (fun a => post a (p s).rest)
    (p s).outcome.result

variable {excepted : Failure → Prop} {post : α → TokenStream → Prop} {p : StreamParser α}
  {s : TokenStream}

theorem Leaves.bind {f : α → StreamParser β} {last : β → TokenStream → Prop}
    (hp : p.Leaves excepted post s)
    (hf : ∀ a, post a (p s).rest → (f a).Leaves excepted last (p s).rest) :
    (p >>= f).Leaves excepted last s := by
  unfold Leaves at hp ⊢
  cases hresult : (p s).outcome.result with
  | ok a =>
    rw [hresult] at hp
    rw [bind_of_ok hresult]
    exact hf a hp
  | error failure =>
    rw [hresult] at hp
    rw [bind_of_error hresult]
    exact hp

end StreamParser

namespace TokenStream

theorem rest_finish (s : TokenStream) (onEnd : Outcome α) : (s.finish onEnd).rest = .empty := by
  unfold finish
  split <;> rfl

theorem finish_settles (s : TokenStream) (onEnd : Outcome α) : (s.finish onEnd).Settles := by
  unfold Step.Settles
  rw [rest_finish]
  cases (s.finish onEnd).outcome.result with
  | ok => exact .ended
  | error => exact rfl

variable {excepted : Failure → Prop}

theorem skipWhitespaceFrom_settles (s : TokenStream) (ps : List Pull) :
    (skipWhitespaceFrom s ps).Settles := by
  induction ps with
  | nil => exact finish_settles s _
  | cons p ps ih =>
    rw [skipWhitespaceFrom]
    split
    · exact ih
    · exact .next _ _ _ _

theorem valuesFrom_settles (s : TokenStream) (stop : TokenKind → Bool) (frames : List Frame)
    (drawn : List ComponentValue) (ps : List Pull) :
    (valuesFrom s stop frames drawn ps).Settles := by
  induction ps generalizing frames drawn with
  | nil => exact finish_settles s _
  | cons p ps ih =>
    rw [valuesFrom]
    split
    · exact .next _ _ _ _
    · cases Progress.feed frames p.token with
      | complete v => exact ih [] (drawn ++ [v])
      | pending inner outer => exact ih (inner :: outer) drawn

theorem componentFrom_leaves (s : TokenStream) (frames : List Frame) (ps : List Pull) :
    Meets (fun _ => (componentFrom s frames ps).rest = .empty) (fun _ => True)
      (componentFrom s frames ps).outcome.result := by
  induction ps generalizing frames with
  | nil => exact (finish_settles s _).weaken fun _ _ => trivial
  | cons p ps ih =>
    rw [componentFrom]
    cases Progress.feed frames p.token with
    | complete v => trivial
    | pending inner outer => exact ih (inner :: outer)

theorem component_leaves (s : TokenStream) : component.Leaves excepted (fun _ _ => True) s :=
  (componentFrom_leaves s [] s.pulls).mono (fun _ => .inr) fun _ h => h

theorem skipWhitespace_leaves (s : TokenStream) :
    skipWhitespace.Leaves excepted (fun _ rest => rest.Noticed) s :=
  (skipWhitespaceFrom_settles s s.pulls).mono (fun _ => .inr) fun _ h => h

theorem valuesUntil_leaves (stop : TokenKind → Bool) (s : TokenStream) :
    (valuesUntil stop).Leaves excepted (fun _ rest => rest.Noticed) s :=
  (valuesFrom_settles s stop [] [] s.pulls).mono (fun _ => .inr) fun _ h => h

theorem isEmpty_leaves (s : TokenStream) :
    isEmpty.Leaves excepted (fun (ended : Bool) rest => ended → rest = .empty) s := by
  have hpeek : peek.Leaves excepted (fun t rest => t = none → rest = .empty) s := by
    rcases s with ⟨_ | ⟨p, ps⟩, reports, fault⟩
    · have hrest := rest_finish ⟨[], reports, fault⟩ (pure (none : Option Token))
      apply (finish_settles ⟨[], reports, fault⟩ (pure none)).mono
      · exact fun _ h => .inr h
      · exact fun _ _ _ => hrest
    · exact nofun
  apply hpeek.bind
  intro t hrest
  cases t with
  | none => exact fun _ => hrest rfl
  | some t => exact nofun

theorem value_relays (s : TokenStream) : value.Relays s := by
  apply (skipWhitespace_relays s).bind
  intro _ _
  apply (isEmpty_relays _).bind
  intro ended _
  cases ended with
  | true => exact (StreamParser.relays_reject _).bind fun _ h => nomatch h
  | false =>
    apply (component_relays _).bind
    intro v _
    apply (skipWhitespace_relays _).bind
    intro _ _
    apply (isEmpty_relays _).bind
    intro ended _
    cases ended with
    | true => exact StreamParser.relays_pure v
    | false => exact StreamParser.relays_reject _

/-- The one value leaves nothing, unless it fails for what it leaves. -/
theorem value_leaves (s : TokenStream) :
    value.Leaves (· = .rejected .surplusValue) (fun _ rest => rest = .empty) s := by
  apply (skipWhitespace_leaves s).bind
  intro _ _
  apply (isEmpty_leaves _).bind
  intro ended hended
  cases ended with
  | true => exact .inr (hended rfl)
  | false =>
    apply (component_leaves _).bind
    intro v _
    apply (skipWhitespace_leaves _).bind
    intro _ _
    apply (isEmpty_leaves _).bind
    intro ended hended
    cases ended with
    | true => exact hended rfl
    | false => exact .inl rfl

def afterPart (s : TokenStream) : TokenStream :=
  (valuesUntil (· == .comma) (skipWhitespace s).rest).rest

theorem length_afterPart_le (s : TokenStream) : s.afterPart.pulls.length ≤ s.pulls.length :=
  Nat.le_trans (length_valuesFrom_le (skipWhitespace s).rest (· == .comma) [] [] _)
    (length_skipWhitespaceFrom_le s s.pulls)

theorem noticed_afterPart (s : TokenStream) : s.afterPart.Noticed :=
  (valuesFrom_settles (skipWhitespace s).rest (· == .comma) [] [] _).noticed

/-- What holds of the last group, and of groups if it holds of those after the next comma, holds of
all groups. -/
theorem groups_induction {motive : TokenStream → Prop}
    (last : ∀ s : TokenStream, s.afterPart = .empty → motive s)
    (more : ∀ (s : TokenStream) token ps reports fault,
      s.afterPart = ⟨⟨[], token⟩ :: ps, reports, fault⟩ → motive ⟨ps, reports, fault⟩ → motive s)
    (s : TokenStream) : motive s := by
  induction hlength : s.pulls.length using Nat.strongRecOn generalizing s with
  | ind n ih =>
  have hle := length_afterPart_le s
  have hnoticed := noticed_afterPart s
  generalize hafter : s.afterPart = rest at hle hnoticed
  cases hnoticed with
  | ended => exact last s hafter
  | next token ps reports fault =>
    rw [List.length_cons] at hle
    exact more s token ps reports fault hafter (ih ps.length (by omega) _ rfl)

variable {s : TokenStream}

theorem groups_relays_of (h : ∀ vs, (othersAfter vs).Relays s.afterPart) :
    StreamParser.Relays groups s := by
  rw [groups_eq]
  apply (skipWhitespace_relays s).bind
  intro _ _
  apply (valuesUntil_relays _ _).bind
  intro vs _
  exact h vs

theorem groups_leaves_of {post : List (List ComponentValue) → TokenStream → Prop}
    (h : ∀ vs, (othersAfter vs).Leaves excepted post s.afterPart) :
    StreamParser.Leaves excepted post groups s := by
  rw [groups_eq]
  apply (skipWhitespace_leaves s).bind
  intro _ _
  apply (valuesUntil_leaves _ _).bind
  intro vs _
  exact h vs

theorem groups_relays (s : TokenStream) : StreamParser.Relays groups s := by
  induction s using groups_induction with
  | last s hafter =>
    apply groups_relays_of
    intro vs
    rw [hafter]
    exact StreamParser.relays_pure _
  | more s token ps reports fault hafter ih =>
    apply groups_relays_of
    intro vs
    rw [hafter]
    exact StreamParser.Relays.bind ih fun gs _ => StreamParser.relays_pure (trimEnd vs :: gs)

theorem groups_leaves (s : TokenStream) :
    StreamParser.Leaves excepted (fun _ rest => rest = .empty) groups s := by
  induction s using groups_induction with
  | last s hafter =>
    apply groups_leaves_of
    intro vs
    rw [hafter]
    exact rfl
  | more s token ps reports fault hafter ih =>
    apply groups_leaves_of
    intro vs
    rw [hafter]
    have hmore : (do return trimEnd vs :: (← groups) : StreamParser _).Leaves excepted
        (fun _ rest => rest = .empty) ⟨ps, reports, fault⟩ := by
      apply StreamParser.Leaves.bind ih
      intro gs hrest
      exact hrest
    exact hmore

theorem commaSeparated_relays (s : TokenStream) : commaSeparated.Relays s := by
  apply (skipWhitespace_relays s).bind
  intro _ _
  apply (isEmpty_relays _).bind
  intro ended _
  cases ended with
  | true => exact StreamParser.relays_pure _
  | false => exact groups_relays _

theorem commaSeparated_leaves (s : TokenStream) :
    commaSeparated.Leaves excepted (fun _ rest => rest = .empty) s := by
  apply (skipWhitespace_leaves s).bind
  intro _ _
  apply (isEmpty_leaves _).bind
  intro ended hended
  cases ended with
  | true => exact hended rfl
  | false => exact groups_leaves _

theorem values_leaves (s : TokenStream) :
    values.Leaves excepted (fun _ rest => rest = .empty) s := by
  have hrest : (values s).rest = .empty := by
    change (valuesFrom s (fun _ => false) Grouping.start.frames Grouping.start.values s.pulls).rest = _
    rw [valuesFrom_eq_feedAll]
    exact rest_finish _ _
  exact (valuesFrom_settles s (fun _ => false) [] [] s.pulls).mono (fun _ => .inr) fun _ _ => hrest

end TokenStream

namespace StreamParser

variable {excepted : Failure → Prop} {p : StreamParser α} {s : TokenStream}

theorem Relays.result_run (h : p.Relays s) : (p.run s.unreported).result = (p.run s).result :=
  h.result

theorem Relays.errors_before (h : p.Relays s) : lexicalErrors (p.run s).events <+: s.allReports :=
  ⟨_, h.errors⟩

theorem Relays.errors_run (h : p.Relays s) (hleaves : p.Leaves excepted (fun _ rest => rest = .empty) s)
    (hresult : ∀ failure, excepted failure → (p.run s).result ≠ .error failure) :
    lexicalErrors (p.run s).events = s.allReports := by
  have hrest : (p s).rest = .empty := by
    unfold Leaves at hleaves
    cases hr : (p s).outcome.result with
    | ok a =>
      rw [hr] at hleaves
      exact hleaves
    | error failure =>
      rw [hr] at hleaves
      exact hleaves.resolve_left fun hexcepted => hresult failure hexcepted hr
  rw [← h.errors, hrest]
  exact (List.append_nil _).symm

end StreamParser

end StyleValue
