import StyleValue.Proofs.Token.Procedure.Cursor

/-!
# Runs of procedures

Where each of the basic procedures leaves the cursor. Whatever the procedures do besides, they move
the cursor on: what they consume comes from the text ahead, in order, and what they report is added
to what was reported before.
-/

set_option autoImplicit false

namespace StyleValue

namespace Cursor

structure Moves (c c' : Cursor) (rest : List Char) (reports : List LexicalError) : Prop where
  text : c'.text = rest
  consumed : ∃ items, c'.consumed = c.consumed ++ items ∧ c.ahead = items.reduceOption ++ c'.ahead
  reports : c'.reports = c.reports ++ reports
  tokens : c'.tokens = c.tokens

namespace Moves

variable {c c' c'' : Cursor} {rest rest' : List Char} {reports reports' : List LexicalError}

theorem refl (htext : c.text = rest) : Moves c c rest [] :=
  ⟨htext, ⟨[], by simp⟩, by simp, rfl⟩

theorem trans (h : Moves c c' rest reports) (h' : Moves c' c'' rest' reports') :
    Moves c c'' rest' (reports ++ reports') := by
  obtain ⟨items, hconsumed, hahead⟩ := h.consumed
  obtain ⟨items', hconsumed', hahead'⟩ := h'.consumed
  refine ⟨h'.text, ⟨items ++ items', ?_, ?_⟩, ?_, h'.tokens.trans h.tokens⟩
  · rw [hconsumed', hconsumed, List.append_assoc]
  · rw [hahead, hahead', List.reduceOption_append, List.append_assoc]
  · rw [h'.reports, h.reports, List.append_assoc]

/-- The code points to come are the last of those that were. -/
theorem ahead (h : Moves c c' rest reports) : c'.ahead = lastCodePoints c.ahead rest := by
  obtain ⟨items, -, hahead⟩ := h.consumed
  rw [hahead, ← h.text]
  simp [lastCodePoints, Cursor.text]

/-- From the start of a token on, the code points consumed are those that the text ahead lost. -/
theorem passed (h : Moves c c' rest reports) (hconsumed : c.consumed = []) :
    c'.consumed.reduceOption = firstCodePoints c.ahead rest := by
  obtain ⟨items, heq, hahead⟩ := h.consumed
  rw [heq, hconsumed, List.nil_append, hahead, ← h.text]
  simp [firstCodePoints, Cursor.text]

end Moves

def skip : ℕ → Cursor → Cursor
  | 0, c => c
  | n + 1, c => skip n c.next

def report (c : Cursor) (error : LexicalError) : Cursor :=
  { c with reports := c.reports ++ [error] }

section Next

variable (c : Cursor)

@[simp] theorem text_next : c.next.text = c.text.tail := by
  simp [text, next, List.map_tail]

theorem report_next (error : LexicalError) : c.next.report error = (c.report error).next := rfl

@[simp] theorem text_report (error : LexicalError) : (c.report error).text = c.text := rfl

theorem head?_text : c.text.head? = c.ahead.head?.map CodePoint.char := by
  simp [text]

end Next

variable {c : Cursor} {text : List Char} (htext : c.text = text)
include htext

theorem moves_next : Moves c c.next text.tail [] := by
  subst htext
  refine ⟨text_next c, ⟨[c.ahead.head?], rfl, ?_⟩, by simp [next], rfl⟩
  cases hahead : c.ahead <;> simp [next, hahead, List.reduceOption]

theorem moves_report (error : LexicalError) : Moves c (c.report error) text [error] :=
  ⟨htext, ⟨[], by simp [report]⟩, rfl, rfl⟩

theorem moves_skip (n : ℕ) : Moves c (c.skip n) (text.drop n) [] := by
  induction n generalizing c text with
  | zero => exact .refl htext
  | succ n ih =>
    have h := (moves_next htext).trans (ih (moves_next htext).text)
    rwa [List.drop_tail] at h

theorem text_skip (n : ℕ) : (c.skip n).text = text.drop n := (moves_skip htext n).text

omit htext in
theorem text_skip_append {front rest : List Char} (htext : c.text = front ++ rest) :
    (c.skip front.length).text = rest := by
  rw [text_skip htext, List.drop_left]

omit htext in
theorem skip_skip (m n : ℕ) (c : Cursor) : (c.skip m).skip n = c.skip (m + n) := by
  induction m generalizing c with
  | zero => rw [Nat.zero_add, skip]
  | succ m ih => rw [Nat.succ_add, skip, skip, ih]

end Cursor

theorem Scanned.after_nil {α : Type} (s : Scanned α) : s.after [] = s := rfl

namespace Procedure

variable {α β : Type} (c : Cursor)

@[simp] theorem on_pure (a : α) : (pure a : Procedure α).on c = some (.ok a, c) := rfl

@[simp] theorem on_throw (m : Mishap) : (throw m : Procedure α).on c = some (.error m, c) := rfl

@[simp] theorem on_bind (p : Procedure α) (f : α → Procedure β) :
    (p >>= f).on c = (p.on c).bind fun
      | (.ok a, c') => (f a).on c'
      | (.error m, c') => some (.error m, c') := by
  refine Option.bind_congr fun r _ => ?_
  obtain ⟨a | m, c'⟩ := r <;> rfl

@[simp] theorem on_map (f : α → β) (p : Procedure α) :
    (f <$> p).on c = (p.on c).map fun
      | (.ok a, c') => (.ok (f a), c')
      | (.error m, c') => (.error m, c') := by
  rw [map_eq_pure_bind, on_bind, Option.map_eq_bind]
  refine Option.bind_congr fun r _ => ?_
  obtain ⟨a | m, c'⟩ := r <;> rfl

@[simp] theorem on_get : (get : Procedure Cursor).on c = some (.ok c, c) := rfl

@[simp] theorem on_modify (f : Cursor → Cursor) :
    (modify f : Procedure PUnit).on c = some (.ok (), f c) := rfl

@[simp] theorem on_peek (n : ℕ) : (peek n).on c = some (.ok (c.text.take n), c) := rfl

theorem take_one_iff {text : List Char} {d : Char} : text.take 1 = [d] ↔ text.head? = some d := by
  cases text <;> simp

theorem any_take_one (p : Char → Bool) (text : List Char) :
    (text.take 1).any p = text.head?.any p := by
  cases text <;> simp

@[simp] theorem on_sourced (kind : TokenKind) :
    (sourced kind).on c = some (.ok ⟨kind, c.source⟩, c) := rfl

@[simp] theorem on_report (error : LexicalError) :
    (report error).on c = some (.ok (), c.report error) := rfl

@[simp] theorem on_mark : mark.on c = some (.ok c.consumed.length, c) := rfl

@[simp] theorem on_ite (b : Prop) [Decidable b] (p q : Procedure α) :
    (if b then p else q).on c = if b then p.on c else q.on c := by
  split <;> rfl

@[simp] theorem on_consume_one : (consume 1).on c = some (.ok (), c.next) := by
  rw [consume, on_modify]
  cases h : c.ahead <;> simp [Cursor.next, h]

@[simp] theorem on_current_next : current.on c.next = some (.ok c.ahead.head?, c.next) := by
  simp [current, Cursor.next]

@[simp] theorem on_currentChar_next : currentChar.on c.next = some (.ok c.text.head?, c.next) := by
  simp [currentChar, Cursor.head?_text]

@[simp] theorem on_reconsume_next :
    (reconsume [c.ahead.head?]).on c.next = some (.ok (), c) := by
  cases c with
  | mk ahead => cases ahead <;> simp [reconsume, require, Cursor.next, List.reduceOption]

@[simp] theorem on_goOn (a : α) : (goOn a : Procedure (α ⊕ β)).on c = some (.ok (.inl a), c) := rfl

@[simp] theorem on_stop (b : β) : (stop b : Procedure (α ⊕ β)).on c = some (.ok (.inr b), c) := rfl

/-- A loop that stops with the result of a procedure runs as that procedure. -/
theorem on_run_of_stop {loop : Loop α β} {a : α} {p : Procedure β} {c c' : Cursor}
    (h : (loop a).on c = (p >>= stop).on c') : (loop.run a).on c = p.on c' := by
  have hstop : ((p >>= stop) >>= Sum.elim loop.run pure) = p := by simp [stop]
  rw [Loop.run_eq, on_bind, h, ← on_bind, hstop]

variable {c} {n : ℕ}

theorem skip_eq (h : n ≤ c.text.length) :
    c.skip n = { c with
      ahead := c.ahead.drop n, consumed := c.consumed ++ (c.ahead.take n).map some } := by
  induction n generalizing c with
  | zero => simp [Cursor.skip]
  | succ n ih =>
    obtain ⟨cp, others, hahead⟩ : ∃ cp others, c.ahead = cp :: others := by
      cases hahead : c.ahead with
      | nil => simp [Cursor.text, hahead] at h
      | cons cp others => exact ⟨cp, others, rfl⟩
    have hlength : n ≤ c.next.text.length := by
      rw [Cursor.text_next, List.length_tail]
      omega
    rw [Cursor.skip, ih hlength]
    simp [Cursor.next, hahead]

theorem on_consume (hpos : 0 < n) (h : n ≤ c.text.length) :
    (consume n).on c = some (.ok (), c.skip n) := by
  have hlength : n ≤ c.ahead.length := by simpa [Cursor.text] using h
  have hne : (c.ahead.take n).isEmpty = false := by
    rw [List.isEmpty_eq_false_iff, Ne, List.take_eq_nil_iff]
    rintro (rfl | hnil)
    · exact absurd hpos (by simp)
    · rw [hnil, List.length_nil] at hlength
      omega
  rw [consume, on_modify, skip_eq h]
  simp [hne]

/-- What was consumed since a mark is what the text ahead lost. -/
theorem on_consumedSince (h : n ≤ c.text.length) :
    (consumedSince c.consumed.length).on (c.skip n) = some (.ok (c.text.take n), c.skip n) := by
  have hitems : ((c.ahead.take n).map some).reduceOption = c.ahead.take n := by
    simp only [List.reduceOption, List.filterMap_map]
    exact List.filterMap_some
  have htext : c.text.take n = (c.ahead.take n).map CodePoint.char := List.map_take.symm
  simp only [consumedSince, skip_eq h, on_bind, on_get, Option.bind_some, List.drop_left, hitems,
    on_pure, htext]

/-- A run of characters of a class, at most some of them, is what a text starts with. -/
theorem run_prefix (p : Char → Bool) (limit : ℕ) (text : List Char) :
    (text.takeWhile p).take limit <+: text :=
  (List.take_prefix _ _).trans (List.takeWhile_prefix _)

-- Whether any of some characters is in a class is kept a Boolean below: as a proposition, it may be
-- decided over all characters there are.

theorem on_consumeWhile (p : Char → Bool) :
    (consumeWhile p).on c = some (.ok (), c.skip (c.text.takeWhile p).length) := by
  induction htext : c.text generalizing c with
  | nil =>
    rw [consumeWhile_eq, consumeRound]
    simp [-List.any_eq_true, htext, Cursor.skip]
  | cons ch text ih =>
    have hnext := ih (c := c.next) (by simp [htext])
    rw [consumeWhile_eq, consumeRound]
    cases hp : p ch <;> simp [-List.any_eq_true, htext, hp, hnext, Cursor.skip]

theorem on_consumeUpTo (p : Char → Bool) {mark limit : ℕ} (hmark : mark ≤ c.consumed.length) :
    (consumeUpTo p mark limit).on c = some (.ok (),
      c.skip ((c.text.takeWhile p).take (limit - (c.consumed.length - mark))).length) := by
  induction htext : c.text generalizing c with
  | nil =>
    rw [consumeUpTo_eq, consumeUpToRound]
    simp [-List.any_eq_true, htext, Cursor.skip]
  | cons ch text ih =>
    have hlength : c.next.consumed.length = c.consumed.length + 1 := by simp [Cursor.next]
    have hnext := ih (c := c.next) (by omega) (by simp [htext])
    rw [consumeUpTo_eq, consumeUpToRound]
    by_cases hp : p ch ∧ c.consumed.length - mark < limit
    · have hleft : limit - (c.consumed.length - mark) =
          limit - (c.next.consumed.length - mark) + 1 := by omega
      rw [hleft]
      simp [-List.any_eq_true, htext, hp.1, hp.2, hnext, Cursor.skip]
    · have htake : ((ch :: text).takeWhile p).take (limit - (c.consumed.length - mark)) = [] := by
        by_cases hch : p ch
        · have : limit - (c.consumed.length - mark) = 0 := by
            have := not_and.1 hp hch
            omega
          rw [this, List.take_zero]
        · simp [hch]
      simp [-List.any_eq_true, htext, hp, htake, Cursor.skip]

theorem on_collectWhile (p : Char → Bool) (front : List Char) :
    (collectWhile p front).on c =
      some (.ok (front ++ c.text.takeWhile p), c.skip (c.text.takeWhile p).length) := by
  induction htext : c.text generalizing c front with
  | nil =>
    rw [collectWhile_eq, collectRound]
    simp [-List.any_eq_true, htext, Cursor.skip]
  | cons ch text ih =>
    have hnext := ih (c := c.next) (front ++ [ch]) (by simp [htext])
    rw [collectWhile_eq, collectRound]
    cases hp : p ch <;> simp [-List.any_eq_true, htext, hp, hnext, Cursor.skip]

/-- The code point before the cursor is the one that was consumed last. -/
theorem on_currentChar_skip {front rest : List Char} {d : Char}
    (htext : c.text = front ++ d :: rest) :
    currentChar.on (c.skip (front.length + 1)) =
      some (.ok (some d), c.skip (front.length + 1)) := by
  have hlast := on_currentChar_next (c.skip front.length)
  rwa [Cursor.text_skip_append htext, show (c.skip front.length).next = c.skip (front.length + 1)
    from Cursor.skip_skip front.length 1 c] at hlast

def Reads (p : Procedure α) (c : Cursor) (s : Scanned α) : Prop :=
  ∃ c', p.on c = some (.ok s.value, c') ∧ c.Moves c' s.rest s.reports

variable {p q : Procedure α} {s : Scanned α}

theorem Reads.of_moves {c' : Cursor} {rest : List Char} {reports : List LexicalError}
    (heq : p.on c = q.on c') (hmoves : c.Moves c' rest reports) (h : Reads q c' s) :
    Reads p c (s.after reports) := by
  obtain ⟨c'', hon, hmoves'⟩ := h
  exact ⟨c'', heq.trans hon, hmoves.trans hmoves'⟩

theorem reads_consumeWhile (p : Char → Bool) :
    Reads (consumeWhile p) c ⟨(), c.text.dropWhile p, []⟩ := by
  refine ⟨_, on_consumeWhile p, ?_⟩
  have hsplit := List.takeWhile_append_dropWhile (p := p) (l := c.text)
  have hmoves := Cursor.moves_skip hsplit.symm (c.text.takeWhile p).length
  rwa [List.drop_left] at hmoves

theorem on_consumeWhile_next (p : Char → Bool) {d : Char} {rest : List Char}
    (htext : c.text = d :: rest) : ∃ c', (consumeWhile p).on c.next = some (.ok (), c') ∧
      c.Moves c' (rest.dropWhile p) [] := by
  have hnext := Cursor.moves_next htext
  obtain ⟨c', hon, hmoves⟩ := reads_consumeWhile (c := c.next) p
  rw [hnext.text, List.tail_cons] at hmoves
  exact ⟨c', hon, hnext.trans hmoves⟩

def Forms (p : Procedure Token) (c : Cursor) (s : Scanned (Computed TokenKind)) : Prop :=
  ∃ c', p.on c = some (match s.value with
      | .ok kind => .ok ⟨kind, c'.source⟩
      | .error _ => .error .overflow, c') ∧ c.Moves c' s.rest s.reports

variable {g h : Procedure Token} {u : Scanned (Computed TokenKind)}

theorem Forms.of_moves {c' : Cursor} {rest : List Char} {reports : List LexicalError}
    (heq : g.on c = h.on c') (hmoves : c.Moves c' rest reports) (hforms : Forms h c' u) :
    Forms g c (u.after reports) := by
  obtain ⟨c'', hon, hmoves'⟩ := hforms
  exact ⟨c'', heq.trans hon, hmoves.trans hmoves'⟩

theorem forms_sourced {text : List Char} (htext : c.text = text) (kind : TokenKind) :
    Forms (sourced kind) c ⟨.ok kind, text, []⟩ :=
  ⟨c, rfl, .refl htext⟩

end Procedure

end StyleValue
