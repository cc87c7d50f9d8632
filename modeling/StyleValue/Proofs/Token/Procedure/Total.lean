import StyleValue.Proofs.Text.Filter
import StyleValue.Proofs.Token.Denotation
import StyleValue.Proofs.Token.Procedure.Token
import StyleValue.Proofs.Token.Remainder

/-!
# Tokenizing ends

Filtering and tokenizing a text come to an end, with the tokens of the text. No assertion fails on
the way, and every conversion gets what it takes but one: an integer that is rounded to more digits
than a decimal may have is not converted, and there the procedure stops.
-/

set_option autoImplicit false

namespace StyleValue

namespace Lexer

theorem numeric_of_error {text : List Char} {fault : Fault}
    (h : (numeric text).value = .error fault) :
    (Numeral.scan text).1.value = .error fault ∧ (numeric text).rest = (Numeral.scan text).2 := by
  unfold numeric at h ⊢
  dsimp only at h ⊢
  split at h
  · next hvalue =>
    cases h
    rw [hvalue]
    exact ⟨rfl, rfl⟩
  · split at h
    · cases h
    · split at h <;> cases h

variable {rangesAllowed : Bool} {c : Char} {rest : List Char}

theorem starts_of_fault {fault : Fault} (h : (token rangesAllowed c rest).value = .error fault) :
    Numeral.starts (c :: rest) := by
  rw [token_eq_scan] at h
  rcases Start.of_eq_range_or rangesAllowed c rest with ⟨-, hrange⟩ | heq
  · rw [hrange] at h
    cases h
  rw [heq] at h
  have hchosen := Start.chosen_of c rest
  generalize Start.of false c rest = start at h hchosen
  cases hchosen with
  | numeral hstarts => exact hstarts
  | quote =>
    rw [Start.scan, Scanned.value_map] at h
    split at h <;> cases h
  | _ => cases h

/-- Where a token has no value, an integer that is too large is read to its end. -/
theorem oversize_of_fault {fault : Fault} (h : (token rangesAllowed c rest).value = .error fault) :
    ∃ n p, Numeral.Spelling n (c :: p) ∧ n.IsOversize ∧
      rest = p ++ (token rangesAllowed c rest).rest := by
  have hstarts := starts_of_fault h
  rw [token_eq_scan, Start.of_numeral hstarts] at h ⊢
  obtain ⟨hvalue, hrest⟩ := numeric_of_error h
  obtain ⟨p, hspelling, hsplit, -⟩ := Numeral.exists_spelling hstarts
  have hoversize := ((Numeral.value_eq_error_iff hspelling.all_digits fault).1 hvalue).2
  obtain ⟨d, p, rfl⟩ := List.exists_cons_of_ne_nil hspelling.ne_nil
  obtain ⟨rfl, htail⟩ := List.cons.inj hsplit
  exact ⟨_, p, hspelling, hoversize, htail.trans (congrArg (p ++ ·) hrest.symm)⟩

theorem token_of_oversize {n : Numeral} {p : List Char} (hspelling : Numeral.Spelling n (c :: p))
    (hoversize : n.IsOversize) : (token rangesAllowed c p).value = .error .overflow := by
  have hends : Numeral.Ends n [] := ⟨by simp, fun _ => rfl, fun _ => rfl⟩
  have hscan := Numeral.scan_spelling hspelling hends
  have hvalue := (Numeral.value_eq_error_iff hspelling.all_digits .overflow).2 ⟨rfl, hoversize⟩
  have hstarts := Numeral.starts_spelling hspelling []
  rw [List.append_nil] at hscan hstarts
  rw [token_eq_scan, Start.of_numeral hstarts, Start.scan, numeric_error hscan hvalue]

end Lexer

namespace Procedure

variable {c : Cursor}

@[simp] theorem on_vend (c : Cursor) (ch : Char) (source : List Char) :
    (vend [ch] source).on c = some (.ok (), { c with ahead := c.ahead ++ [⟨ch, source⟩] }) := by
  simp [vend, require]

theorem on_vendPending (c : Cursor) (pending : Bool) :
    (vendPending pending).on c =
      some (.ok (), { c with ahead := c.ahead ++ Filter.flush pending }) := by
  cases pending <;> simp [vendPending, Filter.flush]

theorem on_vendReplaced (c : Cursor) (ch : Char) :
    (vendReplaced ch).on c =
      some (.ok (), { c with ahead := c.ahead ++ [⟨Filter.replace ch, [ch]⟩] }) := by
  unfold vendReplaced Filter.replace
  split_ifs <;> exact on_vend c _ _

theorem on_filterCodePoints (pending : Bool) (text : List Char) :
    (filterCodePoints pending text).on c =
      some (.ok (), { c with ahead := c.ahead ++ Filter.run pending text }) := by
  induction text generalizing pending c with
  | nil =>
    rw [filterCodePoints, Filter.run_nil]
    exact on_vendPending c pending
  | cons ch text ih =>
    rw [filterCodePoints, Filter.run_cons, Filter.step]
    by_cases hend : pending && ch = '\n'
    · have hother : (ch == Filter.carriageReturn) = false := by
        simp only [Bool.and_eq_true, decide_eq_true_eq] at hend
        rw [hend.2]
        decide
      rw [if_pos hend, if_pos hend, hother]
      simp only [on_bind, on_vend, Option.bind_some, ih, List.append_assoc]
    rw [if_neg hend, if_neg hend]
    by_cases hreturn : ch = Filter.carriageReturn
    · rw [if_pos hreturn, if_pos hreturn]
      simp only [on_bind, on_vendPending, Option.bind_some, ih, hreturn, BEq.rfl, List.append_assoc]
    · have hother : (ch == Filter.carriageReturn) = false := by simpa using hreturn
      rw [if_neg hreturn, if_neg hreturn, hother]
      simp only [on_bind, on_vendPending, on_vendReplaced, Option.bind_some, ih, List.append_assoc]

section Token

variable {rangesAllowed : Bool} {cp : CodePoint} {others : List CodePoint}

theorem token_end (hconsumed : c.consumed = []) (h : c.ahead = []) :
    (token rangesAllowed).on c = some (.ok none, c.next) := by
  simp [token, require, hconsumed, Cursor.text, h]

/-- The token that is consumed, by the scan of the code points ahead. -/
theorem on_token (hconsumed : c.consumed = []) (h : c.ahead = cp :: others)
    {scanned : Scanned (Computed TokenKind)}
    (hscan : scanPoints rangesAllowed cp others = scanned) :
    ∃ c', (token rangesAllowed).on c = some (match scanned.value with
        | .ok kind => .ok (some ⟨kind, c'.source⟩)
        | .error _ => .error .overflow, c') ∧
      c'.ahead = lastCodePoints others scanned.rest ∧
      c'.consumed.reduceOption = cp :: firstCodePoints others scanned.rest ∧
      c'.reports = c.reports ++ scanned.reports ∧ c'.tokens = c.tokens := by
  have htext : c.text = cp.char :: others.map CodePoint.char := by simp [Cursor.text, h]
  have hforms : Forms (do consume 1; tokenFrom rangesAllowed cp.char) c scanned :=
    hscan ▸ forms_token htext
  obtain ⟨c', hon, hmoves⟩ := hforms
  have hlength : scanned.rest.length ≤ others.length := by
    rw [← hscan, ← List.length_map CodePoint.char]
    exact (Lexer.token_suffix rangesAllowed cp.char _).length_le
  have hahead := hmoves.ahead
  have hpassed := hmoves.passed hconsumed
  rw [h] at hahead hpassed
  refine ⟨c', ?_, hahead.trans (lastCodePoints_after [cp] hlength),
    hpassed.trans (firstCodePoints_after [cp] hlength), hmoves.reports, hmoves.tokens⟩
  have hfirst : c.text.head? = some cp.char := by rw [htext]; rfl
  rw [on_bind, on_consume_one, Option.bind_some] at hon
  cases hvalue : scanned.value <;> simp [token, require, hconsumed, hfirst, hon, hvalue]

end Token

/-- How tokenizing some code points ends, by the fault that cuts their tokens short: with all of
them consumed, or where those of an integer that is too large were consumed. -/
inductive Ends (cps : List CodePoint) : Option Fault → Except Mishap Unit → Cursor → Prop
  | finish {c : Cursor} (ahead : c.ahead = []) : Ends cps none (.ok ()) c
  | oversize {c : Cursor} {n : Numeral}
      (spelling : n.Spelling (c.consumed.reduceOption.map CodePoint.char)) (oversize : n.IsOversize)
      (within : c.consumed.reduceOption ++ c.ahead <:+ cps) :
      Ends cps (some .overflow) (.error .overflow) c

theorem Ends.of_suffix {cps others : List CodePoint} {fault : Option Fault}
    {outcome : Except Mishap Unit} (h : Ends others fault outcome c) (hsuffix : others <:+ cps) :
    Ends cps fault outcome c := by
  cases h with
  | finish ahead => exact .finish ahead
  | oversize spelling oversize within => exact .oversize spelling oversize (within.trans hsuffix)

def Tokenizes (rangesAllowed : Bool) (c : Cursor) : Prop :=
  ∃ outcome c', (tokenize rangesAllowed).on c = some (outcome, c') ∧
    c'.tokens = c.tokens ++ (lex rangesAllowed c.ahead).tokens ∧
    c'.reports = c.reports ++ (lex rangesAllowed c.ahead).allReports ∧
    Ends c.ahead (lex rangesAllowed c.ahead).fault outcome c'

structure AtToken (c c' : Cursor) : Prop where
  ahead : c'.ahead = tokenPoints c.ahead
  consumed : c'.consumed = []
  reports : c'.reports = c.reports ++ commentReports c.ahead
  tokens : c'.tokens = c.tokens

section Steps

variable {rangesAllowed : Bool} {cp : CodePoint} {others : List CodePoint}

theorem on_tokenize (rangesAllowed : Bool) (c : Cursor) : ∃ c', AtToken c c' ∧
    (tokenize rangesAllowed).on c = ((token rangesAllowed).on c').bind fun
      | (.ok none, c'') => some (.ok (), c'')
      | (.ok (some t), c'') => (tokenize rangesAllowed).on
          { c'' with consumed := [], tokens := c''.tokens ++ [t] }
      | (.error m, c'') => some (.error m, c'') := by
  obtain ⟨c', hon, hmoves⟩ := reads_comments (c := c)
  refine ⟨{ c' with consumed := [] }, ⟨hmoves.ahead, rfl, hmoves.reports, hmoves.tokens⟩, ?_⟩
  conv_lhs => rw [tokenize_eq, tokenRound]
  simp only [on_bind, hon, Option.bind_some, clear, on_modify]
  rcases (token rangesAllowed).on { c' with consumed := [] } with _ | ⟨_ | _ | _, _⟩ <;> rfl

theorem tokenizes_end (h : tokenPoints c.ahead = []) : Tokenizes rangesAllowed c := by
  obtain ⟨c', hstart, hon⟩ := on_tokenize rangesAllowed c
  have hend := hstart.ahead.trans h
  refine ⟨.ok (), c'.next, ?_, ?_, ?_, ?_⟩
  · rw [hon, token_end hstart.consumed hend]
    rfl
  · simp [lex_end h, TokenStream.tokens, Cursor.next, hstart.tokens]
  · simp [lex_end h, TokenStream.allReports, Cursor.next, hstart.reports]
  · rw [lex_end h]
    exact .finish (by simp [Cursor.next, hend])

theorem tokenizes_fault {fault : Fault} (h : tokenPoints c.ahead = cp :: others)
    (hvalue : (scanPoints rangesAllowed cp others).value = .error fault) :
    Tokenizes rangesAllowed c := by
  obtain ⟨c', hstart, hon⟩ := on_tokenize rangesAllowed c
  obtain ⟨c'', htoken, hahead, hconsumed, hreports, htokens⟩ :=
    on_token hstart.consumed (hstart.ahead.trans h) rfl
  rw [hvalue] at htoken
  obtain rfl : fault = .overflow := Lexer.token_fault hvalue
  refine ⟨.error .overflow, c'', ?_, ?_, ?_, ?_⟩
  · rw [hon, htoken]
    rfl
  · simp [lex_fault h hvalue, TokenStream.tokens, htokens, hstart.tokens]
  · simp [lex_fault h hvalue, TokenStream.allReports, hreports, hstart.reports]
  · obtain ⟨n, p, hspelling, hoversize,
      (hsplit : _ = p ++ (scanPoints rangesAllowed cp others).rest)⟩ :=
      Lexer.oversize_of_fault hvalue
    rw [lex_fault h hvalue]
    refine .oversize ?_ hoversize ?_
    · rw [hconsumed, List.map_cons, (codePoints_split hsplit).1]
      exact hspelling
    · rw [hconsumed, hahead, List.cons_append, firstCodePoints_append_lastCodePoints, ← h]
      exact tokenPoints_suffix c.ahead

theorem tokenizes_token {kind : TokenKind} (h : tokenPoints c.ahead = cp :: others)
    (hvalue : (scanPoints rangesAllowed cp others).value = .ok kind)
    (hnext : ∀ c', c'.ahead = lastCodePoints others (scanPoints rangesAllowed cp others).rest →
      Tokenizes rangesAllowed c') : Tokenizes rangesAllowed c := by
  obtain ⟨c', hstart, hon⟩ := on_tokenize rangesAllowed c
  obtain ⟨c'', htoken, hahead, hconsumed, hreports, htokens⟩ :=
    on_token hstart.consumed (hstart.ahead.trans h) rfl
  rw [hvalue] at htoken
  obtain ⟨outcome, last, hrun, hlast, hlastReports, hends⟩ :=
    hnext { c'' with consumed := [], tokens := c''.tokens ++ [⟨kind, c''.source⟩] } hahead
  refine ⟨outcome, last, ?_, ?_, ?_, ?_⟩
  · rw [hon, htoken]
    exact hrun
  · simp [lex_token h hvalue, TokenStream.tokens, TokenStream.cons, hlast, htokens, hstart.tokens,
      hahead, Cursor.source, hconsumed]
  · simp [lex_token h hvalue, TokenStream.allReports, TokenStream.cons, hlastReports, hreports,
      hstart.reports, hahead]
  · rw [lex_token h hvalue]
    have hothers : lastCodePoints others (scanPoints rangesAllowed cp others).rest <:+ c.ahead :=
      (List.drop_suffix _ _).trans ((List.suffix_cons cp others).trans (h ▸ tokenPoints_suffix _))
    simp only [hahead] at hends
    exact hends.of_suffix hothers

end Steps

theorem tokenizes (rangesAllowed : Bool) (c : Cursor) : Tokenizes rangesAllowed c := by
  induction hahead : c.ahead using lex_induction rangesAllowed generalizing c with
  | finish cps hend => exact tokenizes_end (hahead ▸ hend)
  | fault cps cp others fault hmore hvalue => exact tokenizes_fault (hahead ▸ hmore) hvalue
  | token cps cp others kind hmore hvalue ih => exact tokenizes_token (hahead ▸ hmore) hvalue ih

theorem on_tokenizeChunks (rangesAllowed : Bool) (chunks : List String) :
    (tokenizeChunks rangesAllowed chunks).on .start =
      (tokenize rangesAllowed).on { Cursor.start with ahead := filterChunks chunks } := by
  rw [tokenizeChunks, on_bind, on_filterCodePoints, Filter.filterChunks_eq_run]
  rfl

/-- Whatever the text, and whether ranges of code points are allowed or not, filtering and
tokenizing it ends with the tokens and errors of the text. No assertion fails and nothing is
converted that cannot be, but for an integer that is too large, which the procedure stops at. -/
theorem tokenizeChunks_total (rangesAllowed : Bool) (chunks : List String) :
    ∃ outcome c, (tokenizeChunks rangesAllowed chunks).on .start = some (outcome, c) ∧
      c.tokens = (lexChunks rangesAllowed chunks).tokens ∧
      c.reports = (lexChunks rangesAllowed chunks).allReports ∧
      Ends (filterChunks chunks) (lexChunks rangesAllowed chunks).fault outcome c := by
  obtain ⟨outcome, c, hon, htokens, hreports, hends⟩ :=
    tokenizes rangesAllowed { Cursor.start with ahead := filterChunks chunks }
  refine ⟨outcome, c, (on_tokenizeChunks rangesAllowed chunks).trans hon, ?_, ?_, hends⟩
  · simpa [Cursor.start, lexChunks] using htokens
  · simpa [Cursor.start, lexChunks] using hreports

theorem isPlain_digit {d : Char} (h : isDigit d) : isPlain d := by
  have hreturn : d ≠ Filter.carriageReturn := by
    rintro rfl
    exact absurd h (by decide)
  have hfeed : d ≠ Filter.formFeed := by
    rintro rfl
    exact absurd h (by decide)
  have hnul : d ≠ Filter.nul := by
    rintro rfl
    exact absurd h (by decide)
  simp [isPlain, Filter.replace, hreturn, hfeed, hnul]

/-- A text that is an integer of more digits than a decimal may have is not tokenized. -/
theorem overflow_of_digits (rangesAllowed : Bool) {d : Char} {digits : List Char}
    (all : ∀ e ∈ d :: digits, isDigit e)
    (long : Numeral.isTooLong ⟨false, d :: digits, none, none⟩) :
    ∃ c, (tokenizeChunks rangesAllowed [String.ofList (d :: digits)]).on .start =
      some (.error .overflow, c) := by
  have hspelling : Numeral.Spelling ⟨false, d :: digits, none, none⟩ (d :: digits) := by
    simpa using Numeral.Spelling.parts .none all .none .none (.inl (by simp))
  have hoversize := Numeral.isOversize_of_isTooLong hspelling.all_digits long
  have hfilter : filterChunks [String.ofList (d :: digits)] = ⟨d, [d]⟩ :: points digits :=
    filter_points (List.all_eq_true.2 fun e he => isPlain_digit (all e he))
  have hcomments : Lexer.comments (d :: digits) = ⟨(), d :: digits, []⟩ :=
    Lexer.comments_other fun body heq => by
      obtain ⟨rfl, -⟩ := List.cons.inj heq
      exact absurd (all '/' (by simp)) (by decide)
  have hpoints : tokenPoints (⟨d, [d]⟩ :: points digits) = ⟨d, [d]⟩ :: points digits := by
    rw [tokenPoints, List.map_cons, map_char_points, hcomments]
    simp [lastCodePoints, points]
  have hvalue : (scanPoints rangesAllowed ⟨d, [d]⟩ (points digits)).value = .error .overflow := by
    rw [scanPoints, map_char_points]
    exact Lexer.token_of_oversize hspelling hoversize
  obtain ⟨outcome, c, hon, -, -, hends⟩ :=
    tokenizes rangesAllowed { Cursor.start with ahead := ⟨d, [d]⟩ :: points digits }
  rw [lex_fault hpoints hvalue] at hends
  cases hends with
  | oversize => exact ⟨c, by rw [on_tokenizeChunks, hfilter, hon]⟩

theorem overflow_of_zeros (rangesAllowed : Bool) {n : ℕ} (h : 1000000 ≤ n) :
    ∃ c, (tokenizeChunks rangesAllowed [String.ofList ('1' :: List.replicate n '0')]).on .start =
      some (.error .overflow, c) := by
  refine overflow_of_digits rangesAllowed (fun e he => ?_) ?_
  · rcases List.mem_cons.1 he with rfl | he
    · decide
    · obtain ⟨-, rfl⟩ := List.mem_replicate.1 he
      decide
  · have hsignificant : Numeral.significant ⟨false, '1' :: List.replicate n '0', none, none⟩ =
        '1' :: List.replicate n '0' := by
      simp [Numeral.significant]
    rw [Numeral.isTooLong, hsignificant, List.length_cons, List.length_replicate]
    simp only [Numeral.isInteger, Option.isNone_none, Bool.and_self, Bool.true_and,
      decide_eq_true_eq]
    unfold Decimal.greatestExponent
    omega

/-- A one and a million zeros. -/
theorem overflow_of_million_zeros : ∃ c,
    (tokenizeChunks false [String.ofList ('1' :: List.replicate 1000000 '0')]).on .start =
      some (.error .overflow, c) :=
  overflow_of_zeros false le_rfl

end Procedure

end StyleValue
