import StyleValue.Proofs.Component.Piecewise

/-!
# The buffer of a token stream

A token stream as a buffer with an index: a token is taken from the source when it is looked at for
the first time, and behind the last one the end of input is put into the buffer, which stays there.
Values are drawn by a procedure that calls itself for a group within a group. A procedure that calls
itself forever has no outcome.

Where a buffer is in a list of tokens, an index says, and whether the token there has been looked at
already.
-/

set_option autoImplicit false

namespace StyleValue

open ComponentValue Grouping

inductive Halt
  | assertion
  | noPlace
deriving DecidableEq

/-- The tokens looked at so far, with the end of input as `none`, the index of the next one, the
tokens that are still in the source, and what was reported. -/
structure TokenBuffer where
  drawn : List (Option Token)
  index : ℕ
  source : List Token
  events : List Event

def TokenBuffer.look (b : TokenBuffer) : TokenBuffer :=
  if b.drawn.length ≤ b.index then
    { b with drawn := b.drawn ++ [b.source.head?], source := b.source.tail }
  else b

abbrev Drawing (α : Type) : Type := ExceptT Halt (StateT TokenBuffer Option) α

namespace Drawing

def on {α : Type} (p : Drawing α) (b : TokenBuffer) : Option (Except Halt α × TokenBuffer) :=
  p.run b

def next : Drawing (Option Token) := do
  modify TokenBuffer.look
  let b ← get
  match b.drawn[b.index]? with
  | some t => return t
  | none => throw .noPlace

def isEmpty : Drawing Bool := do return (← next).isNone

def consume : Drawing (Option Token) := do
  let t ← next
  modify fun b => if t.isSome then { b with index := b.index + 1 } else b
  return t

def consumeToken : Drawing Token := do
  match ← consume with
  | some t => return t
  | none => throw .assertion

def report (diagnostic : Diagnostic) : Drawing Unit :=
  modify fun b => { b with events := b.events ++ [.report diagnostic] }

def opened? (t : Token) : Option Frame :=
  (Opener.ofKind? t.kind).map fun opener => ⟨opener, t.source, []⟩

def openGroup : Drawing Frame := do
  match (← consume).bind opened? with
  | some f => return f
  | none => throw .assertion

inductive Part
  | whole
  | rest (f : Frame)

def Part.draw : Part → Drawing ComponentValue
  | .whole => do
    match (← next).bind opened? with
    | some _ => Part.rest (← openGroup) |>.draw
    | none => return .token (← consumeToken)
  | .rest f => do
    match ← next with
    | some t =>
      if t.kind = f.opener.closer then return f.close (← consumeToken).source
      else Part.rest (f.add (← Part.whole |>.draw)) |>.draw
    | none =>
      report f.opener.unterminated
      return f.close ""
partial_fixpoint

def component : Drawing ComponentValue := Part.whole.draw

def fillGroup (f : Frame) : Drawing ComponentValue := (Part.rest f).draw

def collect {α : Type} (condition : Drawing Bool) (p : Drawing α) (as : List α) :
    Drawing (List α) := do
  if ← condition then condition |>.collect p (as ++ [← p]) else return as
partial_fixpoint

def atWhitespace : Drawing Bool := do return (← next).any (·.kind = .whitespace)

def skipWhitespace : Drawing Unit := do
  let _ ← collect atWhitespace consume []

def atOther (stop : TokenKind → Bool) : Drawing Bool := do
  if ← isEmpty then return false
  else return !(← next).any (stop ·.kind)

def valuesUntil (stop : TokenKind → Bool) : Drawing (List ComponentValue) :=
  collect (atOther stop) component []

end Drawing

def Operation.onBuffer : Operation → Drawing Answer
  | .component => do return .value (← Drawing.component)
  | .skipWhitespace => do
    Drawing.skipWhitespace
    return .done
  | .next => do return .token (← Drawing.next)
  | .isEmpty => do return .ended (← Drawing.isEmpty)
  | .values stop => do return .values (← Drawing.valuesUntil stop.stops)

namespace TokenBuffer

def ofTokens (ts : List Token) : TokenBuffer := ⟨[], 0, ts, []⟩

def sealed (ts : List Token) : List (Option Token) := ts.map some ++ [none]

def reached (ts : List Token) (index : ℕ) (looked : Bool) (events : List Event) : TokenBuffer :=
  ⟨(sealed ts).take (index + looked.toNat), index, ts.drop (index + looked.toNat), events⟩

variable {ts : List Token} {index : ℕ}

theorem getElem?_sealed (h : index ≤ ts.length) : (sealed ts)[index]? = some ts[index]? := by
  rcases h.lt_or_eq with hlt | rfl
  · rw [sealed, List.getElem?_append_left (by simpa using hlt)]
    simp [hlt]
  · simp [sealed]

theorem length_take_sealed (h : index ≤ ts.length + 1) :
    ((sealed ts).take index).length = index := by
  rw [List.length_take, sealed, List.length_append, List.length_map]
  exact Nat.min_eq_left h

theorem look_reached (h : index ≤ ts.length) (looked : Bool) (events : List Event) :
    (reached ts index looked events).look = reached ts index true events := by
  cases looked with
  | true =>
    have hlength := length_take_sealed (show index + 1 ≤ ts.length + 1 by omega)
    exact if_neg (by simp only [reached, Bool.toNat_true]; omega)
  | false =>
    have hlength := length_take_sealed (Nat.le_succ_of_le h)
    rw [look, if_pos (by simp only [reached, Bool.toNat_false, Nat.add_zero]; omega)]
    simp only [reached, Bool.toNat_false, Bool.toNat_true, Nat.add_zero, List.head?_drop,
      List.tail_drop, List.take_add_one, getElem?_sealed h, Option.toList_some]

inductive Stands (all ts : List Token) (events : List Event) : TokenBuffer → Prop
  | place (index : ℕ) (looked : Bool) (within : index ≤ all.length) (ahead : all.drop index = ts) :
    Stands all ts events (reached all index looked events)

theorem stands_ofTokens (ts : List Token) : (ofTokens ts).Stands ts ts [] :=
  .place 0 false (Nat.zero_le _) rfl

end TokenBuffer

namespace Drawing

open TokenBuffer

variable {α β : Type} (b : TokenBuffer)

@[simp] theorem on_pure (a : α) : (pure a : Drawing α).on b = some (.ok a, b) := rfl

@[simp] theorem on_throw (h : Halt) : (throw h : Drawing α).on b = some (.error h, b) := rfl

@[simp] theorem on_modify (f : TokenBuffer → TokenBuffer) :
    (modify f : Drawing PUnit).on b = some (.ok (), f b) := rfl

@[simp] theorem on_get : (get : Drawing TokenBuffer).on b = some (.ok b, b) := rfl

@[simp] theorem on_bind (p : Drawing α) (f : α → Drawing β) :
    (p >>= f).on b = (p.on b).bind fun
      | (.ok a, b') => (f a).on b'
      | (.error h, b') => some (.error h, b') := by
  refine Option.bind_congr fun r _ => ?_
  obtain ⟨a | h, b'⟩ := r <;> rfl

variable {ts : List Token} {index : ℕ}

theorem on_next (h : index ≤ ts.length) (looked : Bool) (events : List Event) :
    next.on (reached ts index looked events) =
      some (.ok (ts.drop index).head?, reached ts index true events) := by
  have hplace : (reached ts index true events).drawn[index]? = some (ts.drop index).head? := by
    rw [reached, List.getElem?_take_of_lt (by simp), getElem?_sealed h, List.head?_drop]
  rw [next, on_bind, on_modify, look_reached h]
  simp only [Option.bind_some, on_bind, on_get]
  rw [show (reached ts index true events).index = index from rfl, hplace, on_pure]

def Gives (p : Drawing α) (ts : List Token) (a : α) (events : List Event) (rest : List Token) :
    Prop :=
  ∀ (all : List Token) (before : List Event) (b : TokenBuffer), b.Stands all ts before →
    ∃ b', p.on b = some (.ok a, b') ∧ b'.Stands all rest (before ++ events)

def Fails (p : Drawing α) (ts : List Token) : Prop :=
  ∀ (all : List Token) (before : List Event) (b : TokenBuffer), b.Stands all ts before →
    ∃ b', p.on b = some (.error .assertion, b')

section Gives

variable {ts us rest : List Token} {t : Token} {p : Drawing α} {f : α → Drawing β} {a : α} {c : β}
  {events others : List Event}

theorem gives_pure (a : α) (ts : List Token) : Gives (pure a) ts a [] ts := by
  intro all before b hb
  rw [← List.append_nil before] at hb
  exact ⟨b, on_pure b a, hb⟩

theorem Gives.bind (hp : p.Gives ts a events us) (hf : (f a).Gives us c others rest) :
    (p >>= f).Gives ts c (events ++ others) rest := by
  intro all before b hb
  obtain ⟨b', hon, hb'⟩ := hp all before b hb
  obtain ⟨b'', hon', hb''⟩ := hf all _ b' hb'
  refine ⟨b'', ?_, ?_⟩
  · rw [on_bind, hon]
    exact hon'
  · rwa [List.append_assoc] at hb''

theorem Gives.map (hp : p.Gives ts a events rest) (f : α → β) :
    (p >>= fun a => pure (f a)).Gives ts (f a) events rest := by
  have h : (p >>= fun a => pure (f a)).Gives ts (f a) (events ++ []) rest :=
    hp.bind (gives_pure (f a) rest)
  rwa [List.append_nil] at h

theorem Gives.bind_fails (hp : p.Gives ts a events us) (hf : (f a).Fails us) :
    (p >>= f).Fails ts := by
  intro all before b hb
  obtain ⟨b', hon, hb'⟩ := hp all before b hb
  obtain ⟨b'', hon'⟩ := hf all _ b' hb'
  refine ⟨b'', ?_⟩
  rw [on_bind, hon]
  exact hon'

theorem Fails.bind (hp : p.Fails ts) (f : α → Drawing β) : (p >>= f).Fails ts := by
  intro all before b hb
  obtain ⟨b', hon⟩ := hp all before b hb
  refine ⟨b', ?_⟩
  rw [on_bind, hon]
  rfl

theorem gives_next (ts : List Token) : next.Gives ts ts.head? [] ts := by
  intro all before b hb
  cases hb with
  | place index looked within ahead =>
    subst ahead
    rw [List.append_nil]
    exact ⟨_, on_next within looked before, .place index true within rfl⟩

theorem gives_isEmpty (ts : List Token) : isEmpty.Gives ts ts.isEmpty [] ts := by
  have h := (gives_next ts).map Option.isNone
  have hempty : ts.head?.isNone = ts.isEmpty := by cases ts <;> rfl
  rwa [hempty] at h

theorem gives_atWhitespace (ts : List Token) :
    atWhitespace.Gives ts (ts.head?.any (·.kind = .whitespace)) [] ts := by
  have h := (gives_next ts).map fun t => t.any (·.kind = .whitespace)
  exact h

theorem gives_atOther (stop : TokenKind → Bool) (ts : List Token) :
    (atOther stop).Gives ts (ts.head?.any (!stop ·.kind)) [] ts := by
  cases ts with
  | nil => exact (gives_isEmpty []).bind (gives_pure false [])
  | cons t ts =>
    have hnext := (gives_next (t :: ts)).map fun t => !t.any (stop ·.kind)
    exact (gives_isEmpty (t :: ts)).bind hnext

theorem gives_consume_cons (t : Token) (ts : List Token) :
    consume.Gives (t :: ts) (some t) [] ts := by
  intro all before b hb
  cases hb with
  | place index looked within ahead =>
    have hlt : index < all.length := by
      by_contra hend
      rw [List.drop_eq_nil_of_le (not_lt.1 hend)] at ahead
      cases ahead
    refine ⟨_, ?_, .place (index + 1) false hlt ?_⟩
    · rw [consume, on_bind, on_next within, ahead, List.append_nil]
      rfl
    · rw [← List.tail_drop, ahead, List.tail_cons]

theorem gives_consume_nil : consume.Gives [] none [] [] := by
  intro all before b hb
  cases hb with
  | place index looked within ahead =>
    refine ⟨_, ?_, .place index true within ahead⟩
    rw [consume, on_bind, on_next within, ahead, List.append_nil]
    rfl

theorem gives_consumeToken (t : Token) (ts : List Token) :
    consumeToken.Gives (t :: ts) t [] ts :=
  (gives_consume_cons t ts).bind (gives_pure t ts)

theorem gives_report (d : Diagnostic) (ts : List Token) :
    (report d).Gives ts () [.report d] ts := by
  intro all before b hb
  cases hb with
  | place index looked within ahead => exact ⟨_, on_modify _ _, .place index looked within ahead⟩

end Gives

end Drawing

end StyleValue
