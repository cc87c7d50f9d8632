import StyleValue.Proofs.Component.Buffer
import StyleValue.Proofs.Component.Unclosed

/-!
# Values drawn from a buffer

A group is drawn by one procedure that calls itself for the groups inside, where a grouping has a
stack of frames. It comes to an end, since each call goes on with fewer tokens, and what it draws is
what the grouping makes of the same tokens. So operations on a buffer do what they do on a stream,
in any order.
-/

set_option autoImplicit false

namespace StyleValue

open ComponentValue Grouping

namespace Drawing

theorem opened?_of_opens {t : Token} (h : t.kind.opens) :
    ∃ opener : Opener, t.kind = opener.kind ∧ opened? t = some ⟨opener, t.source, []⟩ := by
  cases hopener : Opener.ofKind? t.kind with
  | none => rw [Opener.ofKind?_eq_none_iff.1 hopener] at h; cases h
  | some opener =>
    exact ⟨opener, Opener.ofKind?_eq_some_iff.1 hopener, by rw [opened?, hopener]; rfl⟩

theorem opened?_of_not_opens {t : Token} (h : t.kind.opens = false) : opened? t = none := by
  rw [opened?, Opener.ofKind?_eq_none_iff.2 h]
  rfl

section Values

variable {ts rest : List Token} {t : Token} {f : Frame} {v : ComponentValue}
  {events others : List Event}

theorem component_gives_single (h : t.kind.opens = false) (ts : List Token) :
    component.Gives (t :: ts) (.token t) [] ts := by
  rw [component, Part.draw]
  refine (gives_next (t :: ts)).bind ?_
  rw [List.head?_cons, Option.bind_some, opened?_of_not_opens h]
  exact (gives_consumeToken t ts).map ComponentValue.token

theorem component_gives_group (h : opened? t = some f)
    (hf : (fillGroup f).Gives ts v events rest) : component.Gives (t :: ts) v events rest := by
  have hopen : openGroup.Gives (t :: ts) f [] ts := by
    refine (gives_consume_cons t ts).bind ?_
    rw [Option.bind_some, h]
    exact gives_pure f ts
  rw [component, Part.draw]
  refine (gives_next (t :: ts)).bind ?_
  rw [List.head?_cons, Option.bind_some, h]
  exact hopen.bind hf

theorem fillGroup_gives_nil (f : Frame) :
    (fillGroup f).Gives [] (f.close "") [.report f.opener.unterminated] [] := by
  rw [fillGroup, Part.draw]
  refine (gives_next []).bind ?_
  exact (gives_report f.opener.unterminated []).bind (gives_pure (f.close "") [])

theorem fillGroup_gives_closer (h : t.kind = f.opener.closer) (ts : List Token) :
    (fillGroup f).Gives (t :: ts) (f.close t.source) [] ts := by
  rw [fillGroup, Part.draw]
  refine (gives_next (t :: ts)).bind ?_
  simp only [List.head?_cons, h, if_true]
  exact (gives_consumeToken t ts).map fun t => f.close t.source

theorem fillGroup_gives_cons {us : List Token} {w : ComponentValue}
    (h : t.kind ≠ f.opener.closer) (hw : component.Gives (t :: ts) w events us)
    (hf : (fillGroup (f.add w)).Gives us v others rest) :
    (fillGroup f).Gives (t :: ts) v (events ++ others) rest := by
  rw [fillGroup, Part.draw]
  refine (gives_next (t :: ts)).bind ?_
  simp only [List.head?_cons, h, if_false]
  exact hw.bind hf

def Draws (ts : List Token) : Prop :=
  ∃ v events rest, component.Gives ts v events rest ∧ rest.length < ts.length ∧
    ∀ g : Grouping, (∀ t ∈ ts.head?, g.closer? ≠ some t.kind) → Leads g ts events (g.add v) rest

def Fills (f : Frame) (ts : List Token) : Prop :=
  ∃ v events rest, (fillGroup f).Gives ts v events rest ∧
    ∀ frames values, Leads ⟨f :: frames, values⟩ ts events (add ⟨frames, values⟩ v) rest

theorem draws_cons (t : Token) (hfills : ∀ f, Fills f ts) : Draws (t :: ts) := by
  cases hopens : t.kind.opens with
  | false =>
    refine ⟨.token t, [], ts, component_gives_single hopens ts, Nat.lt_succ_self _,
      fun g hcloser => .feed ?_⟩
    rw [feed_single g t hopens (hcloser t rfl)]
    exact .refl _ ts
  | true =>
    obtain ⟨opener, hkind, hopened⟩ := opened?_of_opens hopens
    obtain ⟨v, events, rest, hgives, hleads⟩ := hfills ⟨opener, t.source, []⟩
    have hlength := (hleads [] []).suffix.length_le
    refine ⟨v, events, rest, component_gives_group hopened hgives, Nat.lt_succ_of_le hlength,
      fun g _ => .feed ?_⟩
    rw [feed_open g t hkind]
    exact hleads g.frames g.values

theorem fills_nil (f : Frame) : Fills f [] :=
  ⟨f.close "", [.report f.opener.unterminated], [], fillGroup_gives_nil f, .close f⟩

theorem fills_cons (f : Frame) (hdraws : Draws (t :: ts))
    (hfills : ∀ f us, us.length ≤ ts.length → Fills f us) : Fills f (t :: ts) := by
  by_cases hcloser : t.kind = f.opener.closer
  · refine ⟨f.close t.source, [], ts, fillGroup_gives_closer hcloser ts,
      fun frames values => .feed ?_⟩
    rw [feed_close t f frames values hcloser]
    exact .refl _ ts
  · obtain ⟨w, first, us, hw, hlength, hadds⟩ := hdraws
    obtain ⟨v, second, rest, hv, hleads⟩ := hfills (f.add w) us (Nat.le_of_lt_succ hlength)
    refine ⟨v, first ++ second, rest, fillGroup_gives_cons hcloser hw hv, fun frames values => ?_⟩
    have hnot : ∀ s ∈ (t :: ts).head?,
        closer? ⟨f :: frames, values⟩ ≠ some s.kind := by
      rintro s ⟨⟩
      simpa [closer?, eq_comm] using hcloser
    exact (hadds ⟨f :: frames, values⟩ hnot).trans (hleads frames values)

/-- The groups that are open inside of a group are shorter than its rest. -/
theorem fills (f : Frame) (ts : List Token) : Fills f ts := by
  induction hlength : ts.length using Nat.strong_induction_on generalizing f ts with
  | h n ih =>
    cases ts with
    | nil => exact fills_nil f
    | cons t ts =>
      have hshorter : ∀ f us, us.length ≤ ts.length → Fills f us := fun f us hus =>
        ih us.length (by rw [← hlength, List.length_cons]; omega) f us rfl
      exact fills_cons f (draws_cons t fun f => hshorter f ts le_rfl) hshorter

theorem draws (h : ts ≠ []) : Draws ts := by
  obtain ⟨t, ts, rfl⟩ := List.exists_cons_of_ne_nil h
  exact draws_cons t fun f => fills f ts

theorem component_gives (h : ts ≠ []) : ∃ v events rest, component.Gives ts v events rest ∧
    rest.length < ts.length ∧ Takes ts [v] events rest := by
  obtain ⟨v, events, rest, hgives, hlength, hleads⟩ := draws h
  exact ⟨v, events, rest, hgives, hlength, fun values => hleads ⟨[], values⟩ (by simp [closer?])⟩

theorem component_fails : component.Fails [] := by
  have hthrow : Fails (throw .assertion : Drawing Token) [] := fun _ _ b _ => ⟨b, on_throw b _⟩
  have htoken : consumeToken.Fails [] := gives_consume_nil.bind_fails hthrow
  rw [component, Part.draw]
  exact (gives_next []).bind_fails (htoken.bind _)

theorem collect_gives_nil {α : Type} {condition : Drawing Bool} (h : condition.Gives ts false [] ts)
    (p : Drawing α) (as : List α) : (collect condition p as).Gives ts as [] ts := by
  rw [collect]
  exact h.bind (gives_pure as ts)

theorem collect_gives_cons {α : Type} {condition : Drawing Bool} {p : Drawing α} {a : α}
    {us : List Token} {as all : List α} (h : condition.Gives ts true [] ts)
    (hp : p.Gives ts a events us)
    (hmore : (collect condition p (as ++ [a])).Gives us all others rest) :
    (collect condition p as).Gives ts all (events ++ others) rest := by
  rw [collect]
  exact h.bind (hp.bind hmore)

theorem collect_whitespace_gives (ts : List Token) (before : List (Option Token)) : ∃ drawn,
    (collect atWhitespace consume before).Gives ts drawn []
      (ts.dropWhile (·.kind = .whitespace)) := by
  induction ts generalizing before with
  | nil => exact ⟨before, collect_gives_nil (gives_atWhitespace []) consume before⟩
  | cons t ts ih =>
    have hnext := gives_atWhitespace (t :: ts)
    rw [List.head?_cons, Option.any_some] at hnext
    by_cases hspace : t.kind = .whitespace
    · obtain ⟨drawn, hgives⟩ := ih (before ++ [some t])
      simp only [hspace, decide_true, List.dropWhile_cons, if_true] at hnext ⊢
      exact ⟨drawn, collect_gives_cons hnext (gives_consume_cons t ts) hgives⟩
    · simp only [hspace, decide_false, List.dropWhile_cons, Bool.false_eq_true, if_false]
        at hnext ⊢
      exact ⟨before, collect_gives_nil hnext consume before⟩

theorem skipWhitespace_gives (ts : List Token) :
    skipWhitespace.Gives ts () [] (ts.dropWhile (·.kind = .whitespace)) := by
  obtain ⟨drawn, hgives⟩ := collect_whitespace_gives ts []
  exact hgives.map fun _ => ()

theorem valuesUntil_gives (stop : TokenKind → Bool) (ts : List Token) : ∃ ws events rest,
    (valuesUntil stop).Gives ts ws events rest ∧ Takes ts ws events rest ∧
      (∀ w ∈ ws, passes stop w) ∧ ∀ t ∈ rest.head?, stop t.kind := by
  suffices hcollect : ∀ before, ∃ ws events rest,
      (collect (atOther stop) component before).Gives ts (before ++ ws) events rest ∧
      Takes ts ws events rest ∧ (∀ w ∈ ws, passes stop w) ∧ ∀ t ∈ rest.head?, stop t.kind by
    exact hcollect []
  induction hlength : ts.length using Nat.strong_induction_on generalizing ts with
  | h n ih =>
    intro before
    cases ts with
    | nil =>
      refine ⟨[], [], [], ?_, .nil [], by simp, by simp⟩
      rw [List.append_nil]
      exact collect_gives_nil (gives_atOther stop []) component before
    | cons t ts =>
      have hnext := gives_atOther stop (t :: ts)
      by_cases hstop : stop t.kind
      · refine ⟨[], [], t :: ts, ?_, .nil _, by simp, by simpa using hstop⟩
        rw [List.append_nil]
        rw [List.head?_cons, Option.any_some, hstop] at hnext
        exact collect_gives_nil hnext component before
      · obtain ⟨v, first, us, hv, hshorter, htake⟩ := component_gives (List.cons_ne_nil t ts)
        obtain ⟨ws, second, rest, hgives, htakes, hws, hrest⟩ :=
          ih us.length (hlength ▸ hshorter) us rfl (before ++ [v])
        have hpass : passes stop v := by
          have hfirst : v ∈ (completed [] (t :: ts)).head? := by
            rw [htake.completed_eq]
            rfl
          obtain ⟨s, ⟨⟩, hkind⟩ := kind?_first hfirst
          rw [passes, hkind]
          cases t.kind.opens <;> simp [hstop]
        refine ⟨v :: ws, first ++ second, rest, ?_, htake.append htakes,
          List.forall_mem_cons.2 ⟨hpass, hws⟩, hrest⟩
        rw [List.head?_cons, Option.any_some, Bool.not_eq_true _ |>.mp hstop] at hnext
        rw [List.append_assoc] at hgives
        exact collect_gives_cons hnext hv hgives

end Values

end Drawing

namespace Operation

open Drawing (Gives)

variable {ts : List Token}

/-- Every operation on a buffer does what it does on the place before the values to come. -/
theorem onBuffer_serves (op : Operation) (ts : List Token) (h : op = component → ts ≠ []) :
    ∃ a events rest, op.onBuffer.Gives ts a events rest ∧ op.Serves ts a events rest := by
  cases op with
  | component =>
    obtain ⟨v, events, rest, hgives, -, htakes⟩ := Drawing.component_gives (h rfl)
    exact ⟨.value v, events, rest, hgives.map _, serves_component htakes⟩
  | skipWhitespace =>
    exact ⟨.done, [], _, (Drawing.skipWhitespace_gives ts).map fun _ => Answer.done,
      serves_skipWhitespace ts⟩
  | next => exact ⟨.token ts.head?, [], ts, (Drawing.gives_next ts).map _, serves_next ts⟩
  | isEmpty =>
    exact ⟨.ended ts.isEmpty, [], ts, (Drawing.gives_isEmpty ts).map _, serves_isEmpty ts⟩
  | values stop =>
    obtain ⟨ws, events, rest, hgives, htakes, hws, hrest⟩ :=
      Drawing.valuesUntil_gives stop.stops ts
    exact ⟨.values ws, events, rest, hgives.map _, serves_values htakes hws hrest⟩

theorem Serves.unique {op : Operation} {a b : Answer} {first second : List Event}
    {us vs : List Token} (h : op.Serves ts a first us) (h' : op.Serves ts b second vs) :
    a = b ∧ first = second ∧ us = vs := by
  obtain ⟨ws, htakes, hplace⟩ := h
  obtain ⟨xs, htakes', hplace'⟩ := h'
  have hsame := Except.ok.inj ((hplace []).symm.trans (hplace' []))
  obtain ⟨rfl, hplaces⟩ := Prod.mk.inj hsame
  obtain rfl : ws = xs := congrArg Place.before hplaces
  exact ⟨rfl, htakes.unique htakes'⟩

theorem serves (op : Operation) (ts : List Token) (h : op = component → ts ≠ []) :
    ∃ a events rest, op.onStream (.ofTokens ts) = ⟨⟨events, .ok a⟩, .ofTokens rest⟩ ∧
      op.onBuffer.Gives ts a events rest ∧ op.Serves ts a events rest := by
  obtain ⟨a, events, rest, hstream, hserves⟩ := onStream_serves op ts h
  obtain ⟨b, others, us, hbuffer, hserves'⟩ := onBuffer_serves op ts h
  obtain ⟨rfl, rfl, rfl⟩ := hserves.unique hserves'
  exact ⟨a, events, rest, hstream, hbuffer, hserves⟩

variable {op : Operation} {ops : List Operation} {a : Answer} {p q : Place}

theorem run_answers_cons (h : op.onPlace p = .ok (a, q)) (ops : List Operation) :
    (answers onPlace (op :: ops)).run p =
      ((answers onPlace ops).run q).map fun r => (a :: r.1, r.2) := by
  have hrun : (onPlace op).run p = .ok (a, q) := h
  rw [answers, StateT.run_bind, hrun]
  show ((answers onPlace ops).run q >>= fun r => Except.ok (a :: r.1, r.2)) = _
  cases (answers onPlace ops).run q <;> rfl

section Stream

variable {s t u : TokenStream} {first second : List Event} {as : List Answer} {failure : Failure}

theorem onStream_answers_cons (h : op.onStream s = ⟨⟨first, .ok a⟩, t⟩)
    (hops : answers onStream ops t = ⟨⟨second, .ok as⟩, u⟩) :
    answers onStream (op :: ops) s = ⟨⟨first ++ second, .ok (a :: as)⟩, u⟩ := by
  rw [answers, StreamParser.bind_eq h, StreamParser.map_eq hops]
  rfl

theorem onStream_answers_cons_error (h : op.onStream s = ⟨⟨first, .ok a⟩, t⟩)
    (hops : (answers onStream ops t).outcome.result = .error failure) :
    (answers onStream (op :: ops) s).outcome.result = .error failure := by
  rw [answers, StreamParser.bind_eq h, StreamParser.bind_of_error hops]
  rfl

end Stream

/-- What operations on a stream and on its buffer do, by what they do on the place before the values
to come. -/
theorem answers_serve (ops : List Operation) (ts : List Token) (before : List ComponentValue) :
    match (answers onPlace ops).run ⟨before, completed [] ts⟩ with
    | .ok (as, p) => ∃ events rest,
      answers onStream ops (.ofTokens ts) = ⟨⟨events, .ok as⟩, .ofTokens rest⟩ ∧
      (answers onBuffer ops).Gives ts as events rest ∧
      Leads ⟨[], before⟩ ts events ⟨[], p.before⟩ rest ∧ p.after = completed [] rest
    | .error failure => failure = .misuse .endOfInput ∧
      (answers onStream ops (.ofTokens ts)).outcome.result = .error failure ∧
      (answers onBuffer ops).Fails ts := by
  induction ops generalizing ts before with
  | nil => exact ⟨[], ts, rfl, Drawing.gives_pure [] ts, .refl _ ts, rfl⟩
  | cons op ops ih =>
    by_cases hend : op = component ∧ ts = []
    · obtain ⟨rfl, rfl⟩ := hend
      refine ⟨rfl, ?_, (Drawing.component_fails.bind _).bind _⟩
      rw [answers, StreamParser.bind_of_error (by rw [onStream_component_nil])]
    · have hmore : op = component → ts ≠ [] := fun hop hts => hend ⟨hop, hts⟩
      obtain ⟨a, first, us, hstream, hbuffer, ws, htakes, hplace⟩ := serves op ts hmore
      have hrest := ih us (before ++ ws)
      rw [run_answers_cons (hplace before)]
      cases hrun : (answers onPlace ops).run ⟨before ++ ws, completed [] us⟩ with
      | ok r =>
        rw [hrun] at hrest
        obtain ⟨second, rest, hstreams, hbuffers, hleads, hafter⟩ := hrest
        exact ⟨first ++ second, rest, onStream_answers_cons hstream hstreams,
          hbuffer.bind (hbuffers.map (a :: ·)), (htakes before).trans hleads, hafter⟩
      | error failure =>
        rw [hrun] at hrest
        obtain ⟨hfailure, hstreams, hbuffers⟩ := hrest
        exact ⟨hfailure, onStream_answers_cons_error hstream hstreams,
          hbuffer.bind_fails (hbuffers.bind _)⟩

theorem run_values_ofTokens (ts : List Token) : TokenStream.values.run (.ofTokens ts) =
    ⟨TokenStream.unterminatedEvents (start.feedAll ts).frames, .ok (completed [] ts)⟩ := by
  have hreports : (TokenStream.ofTokens ts).allReports = [] := by
    simp [TokenStream.allReports, TokenStream.ofTokens]
  rw [TokenStream.run_values (.ofTokens ts) rfl, TokenStream.tokens_ofTokens, hreports]
  rfl

/-- Operations on the tokens of some values, one after the other, on a stream or on its buffer.
Their answers are those on the place before the values, and in the end they stand where the place
has come to: the values before it are a front part of all, the tokens left are grouped into those
after it, and up to the end of input the tokens that are gone are those of the values before it.
They fail only if a value is to be drawn at the end of input. -/
theorem answers_piecewise (ts : List Token) (ops : List Operation) :
    ∃ reports vs, TokenStream.values.run (.ofTokens ts) = ⟨reports, .ok vs⟩ ∧
      match (answers onPlace ops).run ⟨[], vs⟩ with
      | .ok (as, p) => p.before ++ p.after = vs ∧ ∃ index looked events later,
        index ≤ ts.length ∧
        answers onStream ops (.ofTokens ts) =
          ⟨⟨events, .ok as⟩, .ofTokens (ts.drop index)⟩ ∧
        (answers onBuffer ops).on (.ofTokens ts) =
          some (.ok as, .reached ts index looked events) ∧
        TokenStream.values.run (.ofTokens (ts.drop index)) = ⟨later, .ok p.after⟩ ∧
        reports = events ++ later ∧
        (index < ts.length → flatList p.before = ts.take index)
      | .error failure => failure = .misuse .endOfInput ∧
        (answers onStream ops (.ofTokens ts)).outcome.result = .error failure ∧
        ∃ b, (answers onBuffer ops).on (.ofTokens ts) = some (.error .assertion, b) := by
  have hserve := answers_serve ops ts []
  refine ⟨_, _, run_values_ofTokens ts, ?_⟩
  cases hrun : (answers onPlace ops).run ⟨[], completed [] ts⟩ with
  | error failure =>
    rw [hrun] at hserve
    obtain ⟨hfailure, hstream, hbuffer⟩ := hserve
    exact ⟨hfailure, hstream, hbuffer ts [] _ (TokenBuffer.stands_ofTokens ts)⟩
  | ok r =>
    obtain ⟨as, p⟩ := r
    rw [hrun] at hserve
    obtain ⟨events, rest, hstream, hbuffer, hleads, hafter⟩ := hserve
    obtain ⟨b, hon, index, looked, within, rfl⟩ :=
      hbuffer ts [] _ (TokenBuffer.stands_ofTokens ts)
    refine ⟨hafter ▸ hleads.completed_eq.symm, index, looked, events, _, within, hstream, hon,
      hafter ▸ run_values_ofTokens _, ?_, fun hindex => ?_⟩
    · have hreports := hleads.reports
      rwa [frames_feedAll ⟨[], p.before⟩] at hreports
    · have hrest : ts.drop index ≠ [] := by simpa using hindex
      have hsplit := (List.take_append_drop index ts).trans (hleads.eq_append hrest)
      exact (List.append_cancel_right hsplit).symm

end Operation

end StyleValue
