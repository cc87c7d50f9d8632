import Mathlib.Data.List.TakeWhile
import StyleValue.Proofs.Component.Drawing

/-!
# Tokens drawn piece by piece

Operations on a stream can be mixed in any order: what one of them draws are the next of the values
that the tokens are grouped into, and the tokens that it leaves are those of the values after them.
So each has its equal on a place in the list of values, where it is plain what it answers and how
far it goes.
-/

set_option autoImplicit false

namespace StyleValue

open ComponentValue Grouping

namespace Grouping

open TokenStream (unterminatedEvents)

/-- Up to the rest of some tokens, these lead from a grouping to another one. In the end both make
the same values, and what is reported by then is reported on the way or will be. Before the end,
there is no difference between them at all. -/
structure Leads (g : Grouping) (ts : List Token) (events : List Event) (h : Grouping)
    (rest : List Token) : Prop where
  suffix : rest <:+ ts
  values : (g.feedAll ts).finish = (h.feedAll rest).finish
  reports : unterminatedEvents (g.feedAll ts).frames =
    events ++ unterminatedEvents (h.feedAll rest).frames
  within : rest ≠ [] → g.feedAll ts = h.feedAll rest

namespace Leads

variable {g h k : Grouping} {t : Token} {ts us vs : List Token} {first second : List Event}

theorem refl (g : Grouping) (ts : List Token) : Leads g ts [] g ts :=
  ⟨List.suffix_rfl, rfl, rfl, fun _ => rfl⟩

theorem trans (hg : Leads g ts first h us) (hh : Leads h us second k vs) :
    Leads g ts (first ++ second) k vs := by
  refine ⟨hh.suffix.trans hg.suffix, hg.values.trans hh.values, ?_, fun hvs => ?_⟩
  · rw [hg.reports, hh.reports, List.append_assoc]
  · have hus : us ≠ [] := by
      rintro rfl
      exact hvs (List.suffix_nil.1 hh.suffix)
    exact (hg.within hus).trans (hh.within hvs)

/-- A token, and what it leads to. -/
theorem feed (hg : Leads (g.feed t) ts first k us) : Leads g (t :: ts) first k us :=
  ⟨hg.suffix.trans (List.suffix_cons t ts), hg.values, hg.reports, hg.within⟩

/-- The end of input closes the innermost group. -/
theorem close (f : Frame) (frames : List Frame) (values : List ComponentValue) :
    Leads ⟨f :: frames, values⟩ [] [.report f.opener.unterminated]
      (add ⟨frames, values⟩ (f.close "")) [] := by
  refine ⟨List.suffix_rfl, ?_, ?_, fun hne => absurd rfl hne⟩
  · cases frames <;> rfl
  · cases frames <;> rfl

/-- The end of input closes all groups. -/
theorem unwind (f : Frame) (frames : List Frame) (values : List ComponentValue) :
    Leads ⟨f :: frames, values⟩ [] (unterminatedEvents (f :: frames))
      ⟨[], values ++ [f.unwind frames]⟩ [] := by
  refine ⟨List.suffix_rfl, rfl, ?_, fun hne => absurd rfl hne⟩
  exact (List.append_nil _).symm

/-- Values are made of what is left and what is there already. -/
theorem completed_eq {ws : List ComponentValue} (h : Leads ⟨[], []⟩ ts first ⟨[], ws⟩ us) :
    completed [] ts = ws ++ completed [] us := by
  have hvalues := h.values
  rw [finish_feedAll, finish_feedAll] at hvalues
  exact hvalues

/-- Before the end, the tokens that are gone are those of the values. -/
theorem eq_append {ws : List ComponentValue} (h : Leads ⟨[], []⟩ ts first ⟨[], ws⟩ us)
    (hus : us ≠ []) : ts = flatList ws ++ us := by
  have htokens := congrArg Grouping.tokens (h.within hus)
  rw [tokens_feedAll, tokens_feedAll] at htokens
  simpa [Grouping.tokens, flatList] using htokens

end Leads

def Takes (ts : List Token) (ws : List ComponentValue) (events : List Event)
    (rest : List Token) : Prop :=
  ∀ values, Leads ⟨[], values⟩ ts events ⟨[], values ++ ws⟩ rest

theorem completed_nil : completed [] [] = [] := rfl

theorem completed_eq_nil_iff {ts : List Token} : completed [] ts = [] ↔ ts = [] := by
  have hnil := (TokenStream.offers_ofTokens ts).eq_nil_iff
  simpa [TokenStream.ofTokens] using hnil

/-- The first value is the first token by itself, unless this opens a group. -/
theorem kind?_first {ts : List Token} {v : ComponentValue} (h : v ∈ (completed [] ts).head?) :
    ∃ t ∈ ts.head?, v.kind? = if t.kind.opens then none else some t.kind := by
  cases ts with
  | nil => cases h
  | cons t ts =>
    refine ⟨t, rfl, ?_⟩
    cases hopens : t.kind.opens with
    | false =>
      rw [completed_single t ts hopens] at h
      obtain rfl := Option.some.inj h
      rfl
    | true =>
      obtain ⟨w, ws, hgroup, hnone⟩ := completed_opening t ts hopens
      rw [hgroup] at h
      obtain rfl := Option.some.inj h
      exact hnone

/-- The tokens of the values are those that were grouped, as long as there is one. -/
theorem head?_flatList_completed (ts : List Token) :
    (flatList (completed [] ts)).head? = ts.head? := by
  cases ts with
  | nil => rfl
  | cons t ts =>
    rw [completed, flatList_finish, tokens_feedAll]
    rfl

namespace Takes

variable {ts us vs : List Token} {ws xs : List ComponentValue} {first second : List Event}

theorem nil (ts : List Token) : Takes ts [] [] ts := fun values => by
  rw [List.append_nil]
  exact .refl _ ts

/-- A token that opens nothing is a value by itself. -/
theorem token {t : Token} (h : t.kind.opens = false) (ts : List Token) :
    Takes (t :: ts) [.token t] [] ts := fun values => by
  refine .feed ?_
  rw [feed_single ⟨[], values⟩ t h (by simp [closer?])]
  exact .refl _ ts

theorem append (h : Takes ts ws first us) (h' : Takes us xs second vs) :
    Takes ts (ws ++ xs) (first ++ second) vs := fun values => by
  rw [← List.append_assoc]
  exact (h values).trans (h' _)

/-- White space that comes first, token by token. -/
theorem whitespace (ts : List Token) :
    Takes ts ((ts.takeWhile (·.kind = .whitespace)).map .token) []
      (ts.dropWhile (·.kind = .whitespace)) := by
  induction ts with
  | nil => exact nil []
  | cons t ts ih =>
    by_cases hspace : t.kind = .whitespace
    · have hopens : t.kind.opens = false := by rw [hspace]; rfl
      simp only [List.takeWhile_cons, List.dropWhile_cons, hspace, decide_true, if_true,
        List.map_cons]
      exact (token hopens ts).append ih
    · simp only [List.takeWhile_cons, List.dropWhile_cons, hspace, decide_false,
        Bool.false_eq_true, if_false]
      exact nil (t :: ts)

theorem completed_eq (h : Takes ts ws first us) : completed [] ts = ws ++ completed [] us :=
  (h []).completed_eq

theorem eq_append (h : Takes ts ws first us) (hus : us ≠ []) : ts = flatList ws ++ us :=
  (h []).eq_append hus

/-- What is left, and what is reported, is determined by the values taken. -/
theorem unique (h : Takes ts ws first us) (h' : Takes ts ws second vs) :
    first = second ∧ us = vs := by
  have hvalues : completed [] us = completed [] vs :=
    List.append_cancel_left (h.completed_eq.symm.trans h'.completed_eq)
  have hrest : us = vs := by
    by_cases hus : us = []
    · rw [hus, eq_comm, ← completed_eq_nil_iff, ← hvalues, hus, completed_nil]
    · have hvs : vs ≠ [] := by rwa [ne_eq, ← completed_eq_nil_iff, ← hvalues, completed_eq_nil_iff]
      exact List.append_cancel_left ((h.eq_append hus).symm.trans (h'.eq_append hvs))
  subst hrest
  exact ⟨List.append_cancel_right ((h []).reports.symm.trans (h' []).reports), rfl⟩

/-- The values taken are the longest run with a property if all have it and the next one lacks
it. -/
theorem takeWhile_eq {p : ComponentValue → Bool} (h : Takes ts ws first us) (hws : ∀ w ∈ ws, p w)
    (hnext : ∀ v ∈ (completed [] us).head?, p v = false) :
    (completed [] ts).takeWhile p = ws ∧ (completed [] ts).dropWhile p = completed [] us := by
  rw [h.completed_eq, List.takeWhile_append_of_pos hws, List.dropWhile_append_of_pos hws]
  cases hrest : completed [] us with
  | nil => simp
  | cons v vs =>
    have hv : p v = false := hnext v (by rw [hrest]; rfl)
    simp [hv]

end Takes

end Grouping

structure Stop where
  stops : TokenKind → Bool
  not_opens : ∀ kind, stops kind → kind.opens = false

inductive Operation
  | component
  | skipWhitespace
  | next
  | isEmpty
  | values (stop : Stop)

inductive Answer
  | value (v : ComponentValue)
  | done
  | token (t : Option Token)
  | ended (ended : Bool)
  | values (vs : List ComponentValue)

structure Place where
  before : List ComponentValue
  after : List ComponentValue

def answers {m : Type → Type} [Monad m] (answer : Operation → m Answer) :
    List Operation → m (List Answer)
  | [] => pure []
  | op :: ops => do
    let a ← answer op
    return a :: (← answers answer ops)

namespace Operation

def onPlace : Operation → StateT Place (Except Failure) Answer
  | .component => fun p =>
    match p.after with
    | [] => .error (.misuse .endOfInput)
    | v :: vs => .ok (.value v, ⟨p.before ++ [v], vs⟩)
  | .skipWhitespace => fun p =>
    .ok (.done, ⟨p.before ++ p.after.takeWhile ComponentValue.isWhitespace,
      p.after.dropWhile ComponentValue.isWhitespace⟩)
  | .next => fun p => .ok (.token (flatList p.after).head?, p)
  | .isEmpty => fun p => .ok (.ended p.after.isEmpty, p)
  | .values stop => fun p =>
    .ok (.values (p.after.takeWhile (passes stop.stops)),
      ⟨p.before ++ p.after.takeWhile (passes stop.stops), p.after.dropWhile (passes stop.stops)⟩)

def onStream : Operation → StreamParser Answer
  | .component => do return .value (← TokenStream.component)
  | .skipWhitespace => do
    TokenStream.skipWhitespace
    return .done
  | .next => do return .token (← TokenStream.peek)
  | .isEmpty => do return .ended (← TokenStream.isEmpty)
  | .values stop => do return .values (← TokenStream.valuesUntil stop.stops)

/-- An operation on tokens does what it does on the place before their values: it gives the same
answer, and takes the same values from their front. -/
def Serves (op : Operation) (ts : List Token) (a : Answer) (events : List Event)
    (rest : List Token) : Prop :=
  ∃ ws, Takes ts ws events rest ∧
    ∀ before, op.onPlace ⟨before, completed [] ts⟩ = .ok (a, ⟨before ++ ws, completed [] rest⟩)

end Operation

namespace StreamParser

variable {α β : Type} {p : StreamParser α} {s t : TokenStream} {events : List Event} {a : α}

theorem bind_eq (h : p s = ⟨⟨events, .ok a⟩, t⟩) (f : α → StreamParser β) :
    (p >>= f) s = (f a t).after events := by
  rw [bind_of_ok (by rw [h]), h]

theorem map_eq (h : p s = ⟨⟨events, .ok a⟩, t⟩) (f : α → β) :
    (p >>= fun a => pure (f a)) s = ⟨⟨events, .ok (f a)⟩, t⟩ := by
  rw [bind_eq h]
  show (⟨⟨events ++ [], .ok (f a)⟩, t⟩ : Step β) = _
  rw [List.append_nil]

end StreamParser

namespace TokenStream

def quiet (ts : List Token) : List Pull := ts.map (⟨[], ·⟩)

theorem componentFrom_quiet (us : List Token) (frames : List Frame) (ts : List Token)
    (h : frames ≠ [] ∨ ts ≠ []) : ∃ v events rest,
      componentFrom (ofTokens us) frames (quiet ts) = ⟨⟨events, .ok v⟩, ofTokens rest⟩ ∧
      ∀ values, Leads ⟨frames, values⟩ ts events ⟨[], values ++ [v]⟩ rest := by
  induction ts generalizing frames with
  | nil =>
    cases frames with
    | nil => simp at h
    | cons inner outer =>
      exact ⟨inner.unwind outer, unterminatedEvents (inner :: outer), [], rfl,
        fun values => .unwind inner outer values⟩
  | cons t ts ih =>
    cases hfeed : Progress.feed frames t with
    | complete v =>
      refine ⟨v, [], ts, ?_, fun values => .feed ?_⟩
      · simp only [quiet, List.map_cons, componentFrom, hfeed]
        rfl
      · simp only [Grouping.feed, hfeed]
        exact .refl _ ts
    | pending inner outer =>
      obtain ⟨v, events, rest, hdrawn, hleads⟩ := ih (inner :: outer) (.inl (by simp))
      refine ⟨v, events, rest, ?_, fun values => .feed ?_⟩
      · simp only [quiet, List.map_cons, componentFrom, hfeed]
        exact congrArg (Step.after · []) hdrawn
      · simp only [Grouping.feed, hfeed]
        exact hleads values

theorem valuesFrom_quiet (us : List Token) (stop : TokenKind → Bool) (frames : List Frame)
    (drawn : List ComponentValue) (ts : List Token) : ∃ ws events rest,
      valuesFrom (ofTokens us) stop frames drawn (quiet ts) =
        ⟨⟨events, .ok (drawn ++ ws)⟩, ofTokens rest⟩ ∧
      (∀ values, Leads ⟨frames, values⟩ ts events ⟨[], values ++ ws⟩ rest) ∧
      (∀ w ∈ ws, passes stop w) ∧ ∀ t ∈ rest.head?, stop t.kind := by
  induction ts generalizing frames drawn with
  | nil =>
    cases frames with
    | nil =>
      refine ⟨[], [], [], ?_, fun values => ?_, by simp, by simp⟩
      · rw [List.append_nil]
        rfl
      · rw [List.append_nil]
        exact .refl _ []
    | cons inner outer =>
      obtain ⟨v, vs, hunwind, hkind⟩ := completed_pending inner outer []
      obtain ⟨rfl, -⟩ := List.cons.inj hunwind
      exact ⟨[inner.unwind outer], unterminatedEvents (inner :: outer), [], rfl,
        fun values => .unwind inner outer values, by simp [passes, hkind], by simp⟩
  | cons t ts ih =>
    by_cases hhere : frames.isEmpty && stop t.kind
    · obtain ⟨hframes, hstop⟩ := Bool.and_eq_true_iff.1 hhere
      obtain rfl := List.isEmpty_iff.1 hframes
      refine ⟨[], [], t :: ts, ?_, fun values => ?_, by simp, by simpa using hstop⟩
      · simp only [quiet, List.map_cons, valuesFrom, hhere, if_true, List.append_nil]
        rfl
      · rw [List.append_nil]
        exact .refl _ (t :: ts)
    cases hfeed : Progress.feed frames t with
    | complete v =>
      obtain ⟨ws, events, rest, hdrawn, hleads, hws, hrest⟩ := ih [] (drawn ++ [v])
      have hpass : passes stop v = true := by
        rcases kind?_of_complete hfeed with ⟨rfl, rfl⟩ | hkind
        · simpa [passes, kind?] using hhere
        · simp [passes, hkind]
      refine ⟨v :: ws, events, rest, ?_, fun values => .feed ?_,
        List.forall_mem_cons.2 ⟨hpass, hws⟩, hrest⟩
      · simp only [quiet, List.map_cons, valuesFrom, hhere, hfeed]
        rw [List.append_cons drawn v ws]
        exact congrArg (Step.after · []) hdrawn
      · simp only [Grouping.feed, hfeed]
        simpa only [List.append_assoc, List.singleton_append] using hleads (values ++ [v])
    | pending inner outer =>
      obtain ⟨ws, events, rest, hdrawn, hleads, hws, hrest⟩ := ih (inner :: outer) drawn
      refine ⟨ws, events, rest, ?_, fun values => .feed ?_, hws, hrest⟩
      · simp only [quiet, List.map_cons, valuesFrom, hhere, hfeed]
        exact congrArg (Step.after · []) hdrawn
      · simp only [Grouping.feed, hfeed]
        exact hleads values

theorem skipWhitespaceFrom_quiet (us ts : List Token) :
    skipWhitespaceFrom (ofTokens us) (quiet ts) =
      ⟨⟨[], .ok ()⟩, ofTokens (ts.dropWhile (·.kind = .whitespace))⟩ := by
  induction ts with
  | nil => rfl
  | cons t ts ih =>
    by_cases hspace : t.kind = .whitespace
    · simp only [quiet, List.map_cons, skipWhitespaceFrom, List.dropWhile_cons, hspace, decide_true,
        if_true]
      exact congrArg (Step.after · []) ih
    · simp only [quiet, List.map_cons, skipWhitespaceFrom, List.dropWhile_cons, hspace,
        decide_false, Bool.false_eq_true, if_false]
      rfl

theorem peek_ofTokens (ts : List Token) :
    peek (ofTokens ts) = ⟨⟨[], .ok ts.head?⟩, ofTokens ts⟩ := by
  cases ts <;> rfl

end TokenStream

namespace Operation

open TokenStream (quiet ofTokens)

variable {ts rest : List Token} {ws : List ComponentValue} {events : List Event}

theorem serves_component {v : ComponentValue} (h : Takes ts [v] events rest) :
    component.Serves ts (.value v) events rest := by
  refine ⟨[v], h, fun before => ?_⟩
  rw [h.completed_eq]
  rfl

theorem serves_next (ts : List Token) : next.Serves ts (.token ts.head?) [] ts := by
  refine ⟨[], .nil ts, fun before => ?_⟩
  rw [List.append_nil, ← head?_flatList_completed]
  rfl

theorem serves_isEmpty (ts : List Token) : isEmpty.Serves ts (.ended ts.isEmpty) [] ts := by
  refine ⟨[], .nil ts, fun before => ?_⟩
  have hempty : (completed [] ts).isEmpty = ts.isEmpty := by
    rw [Bool.eq_iff_iff, List.isEmpty_iff, List.isEmpty_iff, completed_eq_nil_iff]
  rw [List.append_nil, ← hempty]
  rfl

theorem serves_skipWhitespace (ts : List Token) :
    skipWhitespace.Serves ts .done [] (ts.dropWhile (·.kind = .whitespace)) := by
  have hws : ∀ w ∈ (ts.takeWhile (·.kind = .whitespace)).map ComponentValue.token,
      w.isWhitespace := by
    intro w hw
    obtain ⟨t, ht, rfl⟩ := List.mem_map.1 hw
    have hspace := List.mem_takeWhile_imp ht
    simpa [ComponentValue.isWhitespace, kind?] using hspace
  have hnext : ∀ v ∈ (completed [] (ts.dropWhile (·.kind = .whitespace))).head?,
      v.isWhitespace = false := by
    intro v hv
    obtain ⟨t, ht, hkind⟩ := kind?_first hv
    have hhead := List.head?_dropWhile_not (fun t : Token => decide (t.kind = .whitespace)) ts
    rw [ht] at hhead
    have hother : t.kind ≠ .whitespace := of_decide_eq_false hhead
    rw [ComponentValue.isWhitespace, hkind]
    cases t.kind.opens <;> simp [hother]
  obtain ⟨htake, hdrop⟩ := (Takes.whitespace ts).takeWhile_eq hws hnext
  refine ⟨_, .whitespace ts, fun before => ?_⟩
  simp only [onPlace, htake, hdrop]

theorem serves_values {stop : Stop} (h : Takes ts ws events rest)
    (hws : ∀ w ∈ ws, passes stop.stops w) (hrest : ∀ t ∈ rest.head?, stop.stops t.kind) :
    (values stop).Serves ts (.values ws) events rest := by
  have hnext : ∀ v ∈ (completed [] rest).head?, passes stop.stops v = false := by
    intro v hv
    obtain ⟨t, ht, hkind⟩ := kind?_first hv
    have hstops := hrest t ht
    simp [passes, hkind, stop.not_opens _ hstops, hstops]
  obtain ⟨htake, hdrop⟩ := h.takeWhile_eq hws hnext
  refine ⟨ws, h, fun before => ?_⟩
  simp only [onPlace, htake, hdrop]

/-- Every operation on a stream does what it does on the place before the values of the stream. Only
at the end of input no value can be drawn. -/
theorem onStream_serves (op : Operation) (ts : List Token) (h : op = component → ts ≠ []) :
    ∃ a events rest, op.onStream (ofTokens ts) = ⟨⟨events, .ok a⟩, ofTokens rest⟩ ∧
      op.Serves ts a events rest := by
  cases op with
  | component =>
    obtain ⟨v, events, rest, hdrawn, hleads⟩ :=
      TokenStream.componentFrom_quiet ts [] ts (.inr (h rfl))
    exact ⟨.value v, events, rest, StreamParser.map_eq hdrawn _, serves_component hleads⟩
  | skipWhitespace =>
    have hdrawn : TokenStream.skipWhitespace (ofTokens ts) =
        ⟨⟨[], .ok ()⟩, ofTokens (ts.dropWhile (·.kind = .whitespace))⟩ :=
      TokenStream.skipWhitespaceFrom_quiet ts ts
    exact ⟨.done, [], _, StreamParser.map_eq hdrawn _, serves_skipWhitespace ts⟩
  | next =>
    exact ⟨.token ts.head?, [], ts, StreamParser.map_eq (TokenStream.peek_ofTokens ts) _,
      serves_next ts⟩
  | isEmpty =>
    have hempty : TokenStream.isEmpty (ofTokens ts) = ⟨⟨[], .ok ts.isEmpty⟩, ofTokens ts⟩ := by
      rw [TokenStream.isEmpty, StreamParser.map_eq (TokenStream.peek_ofTokens ts)]
      cases ts <;> rfl
    exact ⟨.ended ts.isEmpty, [], ts, StreamParser.map_eq hempty _, serves_isEmpty ts⟩
  | values stop =>
    obtain ⟨ws, events, rest, hdrawn, hleads, hws, hrest⟩ :=
      TokenStream.valuesFrom_quiet ts stop.stops [] [] ts
    exact ⟨.values ws, events, rest, StreamParser.map_eq hdrawn _,
      serves_values hleads hws hrest⟩

theorem onStream_component_nil :
    component.onStream (ofTokens []) = ⟨⟨[], .error (.misuse .endOfInput)⟩, ofTokens []⟩ := rfl

end Operation

end StyleValue
