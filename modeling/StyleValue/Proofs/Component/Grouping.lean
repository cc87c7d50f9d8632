import StyleValue.Component.Parser
import StyleValue.Proofs.Component.Flat

/-!
# Grouping of tokens

Grouping goes through tokens one at a time, with the groups that are open and the values that are
complete as its state. No token is lost on the way: the tokens of the state are those that it was
fed. At the end of input the open groups are closed, innermost first, and each such closing token
that the text lacks is reported.
-/

set_option autoImplicit false

namespace StyleValue

open ComponentValue

structure Grouping where
  frames : List Frame
  values : List ComponentValue

namespace Grouping

def start : Grouping := ⟨[], []⟩

def closer? (g : Grouping) : Option TokenKind := g.frames.head?.map fun f => f.opener.closer

def add (g : Grouping) (v : ComponentValue) : Grouping :=
  match g.frames with
  | [] => ⟨[], g.values ++ [v]⟩
  | inner :: outer => ⟨inner.add v :: outer, g.values⟩

def feed (g : Grouping) (t : Token) : Grouping :=
  match Progress.feed g.frames t with
  | .complete v => ⟨[], g.values ++ [v]⟩
  | .pending inner outer => ⟨inner :: outer, g.values⟩

def feedAll (g : Grouping) (ts : List Token) : Grouping := ts.foldl feed g

def finish (g : Grouping) : List ComponentValue :=
  match g.frames with
  | [] => g.values
  | inner :: outer => g.values ++ [inner.unwind outer]

theorem feedAll_cons (g : Grouping) (t : Token) (ts : List Token) :
    g.feedAll (t :: ts) = (g.feed t).feedAll ts := rfl

theorem feedAll_append (g : Grouping) (ts us : List Token) :
    g.feedAll (ts ++ us) = (g.feedAll ts).feedAll us := List.foldl_append

theorem ofValue_eq_add (frames : List Frame) (values : List ComponentValue)
    (v : ComponentValue) :
    (match Progress.ofValue v frames with
      | .complete v => (⟨[], values ++ [v]⟩ : Grouping)
      | .pending inner outer => ⟨inner :: outer, values⟩) = add ⟨frames, values⟩ v := by
  cases frames <;> rfl

theorem feed_open (g : Grouping) (t : Token) {opener : Opener} (h : t.kind = opener.kind) :
    g.feed t = ⟨⟨opener, t.source, []⟩ :: g.frames, g.values⟩ := by
  have hopen := Opener.ofKind?_eq_some_iff.mpr h
  rcases g with ⟨frames, values⟩
  cases frames with
  | nil => simp [feed, Progress.feed, Progress.enter, hopen]
  | cons inner outer =>
    have hne : t.kind ≠ inner.opener.closer := h ▸ Opener.kind_ne_closer opener inner.opener
    simp [feed, Progress.feed, Progress.enter, hopen, hne]

theorem feed_close (t : Token) (inner : Frame) (outer : List Frame)
    (values : List ComponentValue) (h : t.kind = inner.opener.closer) :
    feed ⟨inner :: outer, values⟩ t = add ⟨outer, values⟩ (inner.close t.source) := by
  rw [← ofValue_eq_add]
  simp [feed, Progress.feed, h]

theorem feed_single (g : Grouping) (t : Token) (h : t.kind.opens = false)
    (hne : g.closer? ≠ some t.kind) : g.feed t = g.add (.token t) := by
  have hopen := Opener.ofKind?_eq_none_iff.mpr h
  rcases g with ⟨frames, values⟩
  rw [← ofValue_eq_add]
  cases frames with
  | nil => simp [feed, Progress.feed, Progress.enter, hopen]
  | cons inner outer =>
    have hne : t.kind ≠ inner.opener.closer := by simpa [closer?, eq_comm] using hne
    simp [feed, Progress.feed, Progress.enter, hopen, hne]

/-- A token opens a group, closes the innermost one, or is a value by itself. -/
theorem feed_cases (g : Grouping) (t : Token) :
    (∃ opener : Opener, t.kind = opener.kind ∧
      g.feed t = ⟨⟨opener, t.source, []⟩ :: g.frames, g.values⟩) ∨
    (∃ inner outer, g.frames = inner :: outer ∧ t.kind = inner.opener.closer ∧
      g.feed t = add ⟨outer, g.values⟩ (inner.close t.source)) ∨
    (t.kind.opens = false ∧ g.closer? ≠ some t.kind ∧ g.feed t = g.add (.token t)) := by
  cases hopen : Opener.ofKind? t.kind with
  | some opener =>
    have h := Opener.ofKind?_eq_some_iff.mp hopen
    exact .inl ⟨opener, h, feed_open g t h⟩
  | none =>
    have h := Opener.ofKind?_eq_none_iff.mp hopen
    by_cases hclose : g.closer? = some t.kind
    · obtain ⟨inner, hhead, hkind⟩ := Option.map_eq_some_iff.mp hclose
      obtain ⟨outer, hframes⟩ := List.head?_eq_some_iff.mp hhead
      rcases g with ⟨frames, values⟩
      obtain rfl : frames = inner :: outer := hframes
      exact .inr (.inl ⟨inner, outer, rfl, hkind.symm,
        feed_close t inner outer values hkind.symm⟩)
    · exact .inr (.inr ⟨h, hclose, feed_single g t h hclose⟩)

def tokens (g : Grouping) : List Token :=
  flatList g.values ++
    g.frames.reverse.flatMap fun f => ⟨f.opener.kind, f.source⟩ :: flatList f.values

theorem tokens_start : start.tokens = [] := rfl

theorem tokens_add (g : Grouping) (v : ComponentValue) :
    (g.add v).tokens = g.tokens ++ flat v := by
  rcases g with ⟨frames, values⟩
  cases frames with
  | nil => simp [add, tokens, flatList_append]
  | cons inner outer => simp [add, tokens, Frame.add, flatList_append]

theorem tokens_feed (g : Grouping) (t : Token) : (g.feed t).tokens = g.tokens ++ [t] := by
  rcases feed_cases g t with ⟨opener, hkind, hfeed⟩ | ⟨inner, outer, hframes, hkind, hfeed⟩ |
    ⟨-, -, hfeed⟩
  · simp [hfeed, tokens, flatList, ← hkind]
  · rw [hfeed, tokens_add, Frame.flat_close, ← hkind]
    simp [tokens, hframes]
  · rw [hfeed, tokens_add, flat]

theorem tokens_feedAll (g : Grouping) (ts : List Token) :
    (g.feedAll ts).tokens = g.tokens ++ ts := by
  induction ts generalizing g with
  | nil => simp [feedAll]
  | cons t ts ih => rw [feedAll_cons, ih, tokens_feed, List.append_assoc, List.singleton_append]

structure WellFormed (g : Grouping) : Prop where
  values : AllWellFormed g.values
  frames : ∀ f ∈ g.frames, f.WellFormed

theorem wellFormed_start : start.WellFormed := ⟨trivial, by simp [start]⟩

theorem WellFormed.add {g : Grouping} (hg : g.WellFormed) {v : ComponentValue}
    (hv : v.WellFormed) (hne : ∀ kind ∈ v.kind?, g.closer? ≠ some kind) :
    (g.add v).WellFormed := by
  rcases g with ⟨frames, values⟩
  cases frames with
  | nil => exact ⟨(allWellFormed_concat values v).mpr ⟨hg.values, hv⟩, by simp [Grouping.add]⟩
  | cons inner outer =>
    obtain ⟨hinner, houter⟩ := List.forall_mem_cons.mp hg.frames
    refine ⟨hg.values, List.forall_mem_cons.mpr ⟨⟨?_, ?_⟩, houter⟩⟩
    · exact (allWellFormed_concat inner.values v).mpr ⟨hinner.1, hv⟩
    · intro w hw
      rcases List.mem_append.mp hw with hw | hw
      · exact hinner.2 w hw
      · obtain rfl : w = v := by simpa using hw
        exact fun hkind => hne _ hkind rfl

theorem WellFormed.feed {g : Grouping} (hg : g.WellFormed) (t : Token) :
    (g.feed t).WellFormed := by
  rcases feed_cases g t with ⟨opener, -, hfeed⟩ | ⟨inner, outer, hframes, -, hfeed⟩ |
    ⟨hopens, hne, hfeed⟩
  · rw [hfeed]
    exact ⟨hg.values, List.forall_mem_cons.mpr ⟨⟨trivial, by simp⟩, hg.frames⟩⟩
  · have hall := hg.frames
    rw [hframes] at hall
    obtain ⟨hinner, houter⟩ := List.forall_mem_cons.mp hall
    have hrest : WellFormed ⟨outer, g.values⟩ := ⟨hg.values, houter⟩
    rw [hfeed]
    exact hrest.add ((Frame.wellFormed_close inner _).mpr hinner) (by simp [Frame.kind?_close])
  · rw [hfeed]
    exact hg.add hopens fun kind hkind => by simp_all [kind?]

theorem WellFormed.feedAll {g : Grouping} (hg : g.WellFormed) (ts : List Token) :
    (g.feedAll ts).WellFormed := by
  induction ts generalizing g with
  | nil => exact hg
  | cons t ts ih => exact ih (hg.feed t)

def missing (g : Grouping) : List Token := g.frames.map fun f => ⟨f.opener.closer, ""⟩

theorem join_missing (g : Grouping) : String.join (g.missing.map Token.source) = "" := by
  rcases g with ⟨frames, values⟩
  induction frames with
  | nil => rfl
  | cons f frames ih => simpa [missing] using ih

/-- The end of input does what the missing closing tokens would do. -/
theorem feedAll_missing (g : Grouping) : g.feedAll g.missing = ⟨[], g.finish⟩ := by
  rcases g with ⟨frames, values⟩
  cases frames with
  | nil => rfl
  | cons inner outer =>
    induction outer generalizing inner with
    | nil =>
      simp only [missing, List.map_cons, List.map_nil, feedAll_cons]
      rw [feed_close _ _ _ _ rfl]
      rfl
    | cons next outer ih =>
      simp only [missing, List.map_cons, feedAll_cons]
      rw [feed_close _ _ _ _ rfl]
      exact ih (next.add (inner.close ""))

theorem flatList_finish (g : Grouping) : flatList g.finish = g.tokens ++ g.missing := by
  rw [← tokens_feedAll, feedAll_missing]
  simp [tokens]

theorem WellFormed.finish {g : Grouping} (hg : g.WellFormed) : AllWellFormed g.finish := by
  have h := (hg.feedAll g.missing).values
  rwa [feedAll_missing] at h

end Grouping

namespace Step

variable {α : Type}

theorem after_after (s : Step α) (first second : List Event) :
    (s.after second).after first = s.after (first ++ second) := by
  simp [after, Outcome.after]

end Step

theorem lexicalEvents_append (a b : List LexicalError) :
    lexicalEvents (a ++ b) = lexicalEvents a ++ lexicalEvents b := List.map_append

namespace TokenStream

/-- Drawing all values feeds the tokens to a grouping, and closes what the end finds open. -/
theorem valuesFrom_eq_feedAll (s : TokenStream) (g : Grouping) (ps : List Pull) :
    valuesFrom s (fun _ => false) g.frames g.values ps =
      (s.finish ⟨unterminatedEvents (g.feedAll (ps.map Pull.token)).frames,
        .ok (g.feedAll (ps.map Pull.token)).finish⟩).after
          (lexicalEvents (ps.flatMap Pull.reports)) := by
  induction ps generalizing g with
  | nil =>
    rcases g with ⟨frames, values⟩
    cases frames <;> rfl
  | cons p ps ih =>
    have hstep : valuesFrom s (fun _ => false) g.frames g.values (p :: ps) =
        (valuesFrom s (fun _ => false) (g.feed p.token).frames (g.feed p.token).values ps).after
          (lexicalEvents p.reports) := by
      simp only [valuesFrom, Bool.and_false, Bool.false_eq_true, if_false, Grouping.feed]
      cases Progress.feed g.frames p.token <;> rfl
    rw [hstep, ih, Step.after_after, ← lexicalEvents_append]
    rfl

theorem run_values (s : TokenStream) (h : s.fault = none) :
    values.run s = ⟨lexicalEvents s.allReports ++
      unterminatedEvents (Grouping.start.feedAll s.tokens).frames,
      .ok (Grouping.start.feedAll s.tokens).finish⟩ := by
  have hall := valuesFrom_eq_feedAll s Grouping.start s.pulls
  change (valuesFrom s (fun _ => false) Grouping.start.frames Grouping.start.values
    s.pulls).outcome = _
  rw [hall]
  simp only [finish, h, Step.after, Outcome.after, allReports, lexicalEvents_append,
    List.append_assoc]
  rfl

/-- Grouping keeps every token, adds the closing tokens that are missing and reports each of them,
and makes well-formed values. -/
theorem values_keep_tokens (ts : List Token) :
    ∃ (vs : List ComponentValue) (unclosed : List Opener),
      values.run (ofTokens ts) = ⟨unclosed.map fun o => .report o.unterminated, .ok vs⟩ ∧
      flatList vs = ts ++ unclosed.map (fun o => ⟨o.closer, ""⟩) ∧
      sources vs = String.join (ts.map Token.source) ∧
      AllWellFormed vs := by
  have hrun := run_values (ofTokens ts) rfl
  rw [tokens_ofTokens] at hrun
  have hreports : (ofTokens ts).allReports = [] := by simp [allReports, ofTokens]
  have hflat := (Grouping.start.feedAll ts).flatList_finish
  rw [Grouping.tokens_feedAll, Grouping.tokens_start, List.nil_append] at hflat
  refine ⟨_, (Grouping.start.feedAll ts).frames.map Frame.opener, ?_, ?_, ?_,
    (Grouping.wellFormed_start.feedAll ts).finish⟩
  · rw [hrun, hreports]
    simp [lexicalEvents, unterminatedEvents]
  · simp [hflat, Grouping.missing]
  · rw [sources_eq_join_flatList, hflat, List.map_append, String.join_append,
      Grouping.join_missing, String.append_empty]

end TokenStream

end StyleValue
