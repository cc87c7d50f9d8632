import StyleValue.Component.Frame

/-!
# From tokens to component values

Tokens are drawn from a stream one at a time, and errors of the text are reported as the tokens
behind them are first looked at. An operation that fails leaves the stream where it was when it
failed.
-/

set_option autoImplicit false

namespace StyleValue

structure Step (α : Type) where
  outcome : Outcome α
  rest : TokenStream

def Step.after {α : Type} (s : Step α) (events : List Event) : Step α :=
  ⟨s.outcome.after events, s.rest⟩

def StreamParser (α : Type) : Type := TokenStream → Step α

namespace StreamParser

variable {α β : Type}

protected def pure (a : α) : StreamParser α := fun s => ⟨pure a, s⟩

protected def bind (p : StreamParser α) (f : α → StreamParser β) : StreamParser β := fun s =>
  let first := p s
  match first.outcome.result with
  | .ok a => (f a first.rest).after first.outcome.events
  | .error failure => ⟨⟨first.outcome.events, .error failure⟩, first.rest⟩

instance : Monad StreamParser where
  pure := StreamParser.pure
  bind := StreamParser.bind

def reject (cause : Rejection) : StreamParser α := fun s =>
  ⟨⟨[], StyleValue.reject cause⟩, s⟩

end StreamParser

namespace TokenStream

def finish {α : Type} (s : TokenStream) (onEnd : Outcome α) : Step α :=
  match s.fault with
  | some fault => ⟨⟨lexicalEvents s.reports, .error (.fault fault)⟩, .empty⟩
  | none => ⟨onEnd.after (lexicalEvents s.reports), .empty⟩

def seen (s : TokenStream) (first : Pull) (others : List Pull) : TokenStream :=
  { s with pulls := ⟨[], first.token⟩ :: others }

def peek : StreamParser (Option Token) := fun s =>
  match s.pulls with
  | [] => s.finish (pure none)
  | p :: ps => ⟨⟨lexicalEvents p.reports, .ok (some p.token)⟩, s.seen p ps⟩

def next : StreamParser (Option Token) := fun s =>
  match s.pulls with
  | [] => s.finish (pure none)
  | p :: ps => ⟨⟨lexicalEvents p.reports, .ok (some p.token)⟩, { s with pulls := ps }⟩

def isEmpty : StreamParser Bool := do return (← peek).isNone

def skipWhitespaceFrom (s : TokenStream) : List Pull → Step Unit
  | [] => s.finish (pure ())
  | p :: ps =>
    if p.token.kind = .whitespace then (skipWhitespaceFrom s ps).after (lexicalEvents p.reports)
    else ⟨⟨lexicalEvents p.reports, .ok ()⟩, s.seen p ps⟩

def skipWhitespace : StreamParser Unit := fun s => skipWhitespaceFrom s s.pulls

def unterminatedEvents (frames : List Frame) : List Event :=
  frames.map fun f => .report f.opener.unterminated

def componentFrom (s : TokenStream) (frames : List Frame) : List Pull → Step ComponentValue
  | [] =>
    s.finish
      (match frames with
      | [] => .fail (.misuse .endOfInput)
      | inner :: outer => ⟨unterminatedEvents frames, .ok (inner.unwind outer)⟩)
  | p :: ps =>
    match Progress.feed frames p.token with
    | .complete v => ⟨⟨lexicalEvents p.reports, .ok v⟩, { s with pulls := ps }⟩
    | .pending inner outer =>
      (componentFrom s (inner :: outer) ps).after (lexicalEvents p.reports)

def component : StreamParser ComponentValue := fun s => componentFrom s [] s.pulls

def valuesFrom (s : TokenStream) (stop : TokenKind → Bool) (frames : List Frame)
    (values : List ComponentValue) : List Pull → Step (List ComponentValue)
  | [] =>
    s.finish
      (match frames with
      | [] => pure values
      | inner :: outer => ⟨unterminatedEvents frames, .ok (values ++ [inner.unwind outer])⟩)
  | p :: ps =>
    if frames.isEmpty && stop p.token.kind then
      ⟨⟨lexicalEvents p.reports, .ok values⟩, s.seen p ps⟩
    else
      (match Progress.feed frames p.token with
      | .complete v => valuesFrom s stop [] (values ++ [v]) ps
      | .pending inner outer => valuesFrom s stop (inner :: outer) values ps).after
        (lexicalEvents p.reports)

def valuesUntil (stop : TokenKind → Bool) : StreamParser (List ComponentValue) := fun s =>
  valuesFrom s stop [] [] s.pulls

def values : StreamParser (List ComponentValue) := valuesUntil fun _ => false

def value : StreamParser ComponentValue := do
  skipWhitespace
  if (← isEmpty) then StreamParser.reject .noValue
  let v ← component
  skipWhitespace
  if (← isEmpty) then return v
  StreamParser.reject .surplusValue

theorem length_skipWhitespaceFrom_le (s : TokenStream) (ps : List Pull) :
    (skipWhitespaceFrom s ps).rest.pulls.length ≤ ps.length := by
  induction ps with
  | nil => unfold skipWhitespaceFrom finish; split <;> simp [empty]
  | cons p ps ih =>
    unfold skipWhitespaceFrom
    split
    · simp [Step.after]; omega
    · simp [seen]

theorem length_valuesFrom_le (s : TokenStream) (stop : TokenKind → Bool) (frames : List Frame)
    (vs : List ComponentValue) (ps : List Pull) :
    (valuesFrom s stop frames vs ps).rest.pulls.length ≤ ps.length := by
  induction ps generalizing frames vs with
  | nil => unfold valuesFrom finish; split <;> simp [empty]
  | cons p ps ih =>
    unfold valuesFrom
    split
    · simp [seen]
    · simp only [Step.after]
      split
      · exact Nat.le_succ_of_le (ih _ _)
      · exact Nat.le_succ_of_le (ih _ _)

def trimEnd (vs : List ComponentValue) : List ComponentValue :=
  (vs.reverse.dropWhile ComponentValue.isWhitespace).reverse

def groups (s : TokenStream) : Step (List (List ComponentValue)) :=
  let spaced := skipWhitespaceFrom s s.pulls
  match spaced.outcome.result with
  | .error failure => ⟨⟨spaced.outcome.events, .error failure⟩, spaced.rest⟩
  | .ok () =>
    let part := valuesUntil (· == .comma) spaced.rest
    let events := spaced.outcome.events ++ part.outcome.events
    match part.outcome.result with
    | .error failure => ⟨⟨events, .error failure⟩, part.rest⟩
    | .ok vs =>
      match _h : part.rest.pulls with
      | [] => ⟨⟨events, .ok [trimEnd vs]⟩, part.rest⟩
      | _ :: ps =>
        let others := groups { part.rest with pulls := ps }
        ⟨⟨events ++ others.outcome.events, others.outcome.result.map (trimEnd vs :: ·)⟩, others.rest⟩
termination_by s.pulls.length
decreasing_by
  have h1 := length_skipWhitespaceFrom_le s s.pulls
  have h2 := length_valuesFrom_le spaced.rest (· == .comma) [] [] spaced.rest.pulls
  have h3 := congrArg List.length _h
  simp only [List.length_cons] at h3
  simp only [part, valuesUntil] at h3
  simp only [spaced] at h2 h3
  omega

def commaSeparated : StreamParser (List (List ComponentValue)) := do
  skipWhitespace
  if (← isEmpty) then return []
  groups

def readAll (s : TokenStream) : Outcome (List Token) :=
  ⟨lexicalEvents s.allReports,
    match s.fault with
    | some fault => .error (.fault fault)
    | none => .ok s.tokens⟩

end TokenStream

def StreamParser.run {α : Type} (p : StreamParser α) (s : TokenStream) : Outcome α := (p s).outcome

end StyleValue
