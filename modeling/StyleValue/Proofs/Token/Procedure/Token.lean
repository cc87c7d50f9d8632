import Mathlib.Data.List.DropRight
import StyleValue.Proofs.Token.Procedure.Number
import StyleValue.Proofs.Token.Procedure.Quotation

/-!
# Tokens by procedures

The procedure for a token chooses by the first characters as the scanner does, and forms the token
that the scanner finds. What it puts back is what it consumed last, and a range of code points is
read only where it has a digit or a question mark.
-/

set_option autoImplicit false

namespace StyleValue

namespace Procedure

variable {c : Cursor}

/-- A URL is read after the white space at its start, by what it starts with. -/
theorem forms_url {start : Cursor} {p : Procedure Token} {text : List Char}
    {reports : List LexicalError} (hmoves : start.Moves c (text.dropWhile isWhitespace) reports)
    (hrun : p.on start = if (text.dropWhile isWhitespace).head? = some '"' ∨
        (text.dropWhile isWhitespace).head? = some '\'' then quotedUrlToken.on c
      else urlToken.on c) :
    Forms p start (((Lexer.url text).map fun value => .ok (Lexer.urlKind value)).after reports) := by
  have hidempotent := List.dropWhile_idempotent isWhitespace text
  unfold Lexer.url
  generalize text.dropWhile isWhitespace = rest at *
  cases rest with
  | nil => exact .of_moves (by simpa using hrun) hmoves (forms_urlToken hmoves.text rfl)
  | cons d others =>
    by_cases hquote : d = '"' ∨ d = '\''
    · simp only [List.head?_cons, Option.some.injEq, hquote, if_true] at hrun
      simp only [Bool.or_eq_true, decide_eq_true_eq, hquote, if_true]
      exact .of_moves hrun hmoves (forms_quotedUrlToken hmoves.text)
    · simp only [List.head?_cons, Option.some.injEq, hquote, if_false] at hrun
      simp only [Bool.or_eq_true, decide_eq_true_eq, hquote, if_false]
      exact .of_moves hrun hmoves (forms_urlToken hmoves.text hidempotent)

theorem forms_identLikeToken : Forms identLikeToken c ((Lexer.identLike c.text).map .ok) := by
  obtain ⟨c', hon, hname⟩ := reads_identSequence (c := c) []
  generalize hscan : Lexer.name c.text = scanned at *
  obtain ⟨value, rest, reports⟩ := scanned
  simp only [Scanned.map, List.nil_append] at hon hname
  by_cases hopen : rest.head? = some '('
  · obtain ⟨others, rfl⟩ := List.head?_eq_some_iff.mp hopen
    have hafter := hname.trans (Cursor.moves_next hname.text)
    rw [List.append_nil, List.tail_cons] at hafter
    rw [Lexer.identLike_function hscan]
    split
    · next hurl =>
      obtain ⟨c'', hspace, hmoves⟩ := reads_consumeWhile (c := c'.next) isWhitespace
      rw [hafter.text] at hmoves
      have hmoves' := hafter.trans hmoves
      rw [List.append_nil] at hmoves'
      refine forms_url hmoves' ?_
      simp [identLikeToken, hon, hname.text, hurl, hspace, hmoves.text, take_one_iff]
    · next hurl =>
      refine ⟨_, ?_, hafter⟩
      simp [identLikeToken, hon, hname.text, hurl]
  · have hident : (Lexer.name c.text).rest.head? ≠ some '(' := by rwa [hscan]
    rw [Lexer.identLike_ident hident, hscan]
    refine ⟨c', ?_, hname⟩
    simp [identLikeToken, hon, hname.text, take_one_iff, hopen]

section Run

variable {p q : Char → Bool} {limit : ℕ} {text run : List Char} (htext : c.text = text)
include htext

theorem on_run (hrun : run = (text.takeWhile p).take limit) :
    (consumeUpTo p c.consumed.length limit).on c = some (.ok (), c.skip run.length) ∧
      (consumedSince c.consumed.length).on (c.skip run.length) =
        some (.ok run, c.skip run.length) := by
  have hprefix : run <+: c.text := by
    rw [hrun, htext]
    exact run_prefix p limit text
  have hupto : (consumeUpTo p c.consumed.length limit).on c = _ := on_consumeUpTo p le_rfl
  have hsince := on_consumedSince hprefix.length_le
  rw [htext, Nat.sub_self, Nat.sub_zero, ← hrun] at hupto
  rw [← List.prefix_iff_eq_take.1 hprefix] at hsince
  exact ⟨hupto, hsince⟩

/-- A run after another, with which it shares a limit, is consumed, and both are collected. -/
theorem on_secondRun {other : List Char} (hrun : run = (text.takeWhile p).take limit)
    (hother : other = ((text.drop run.length).takeWhile q).take (limit - run.length)) :
    (consumeUpTo q c.consumed.length limit).on (c.skip run.length) =
        some (.ok (), c.skip (run ++ other).length) ∧
      (consumedSince c.consumed.length).on (c.skip (run ++ other).length) =
        some (.ok (run ++ other), c.skip (run ++ other).length) := by
  obtain ⟨rest, hsplit⟩ : run <+: text := hrun ▸ run_prefix p limit text
  have hdrop : text.drop run.length = rest := by rw [← hsplit, List.drop_left]
  rw [hdrop] at hother
  have hboth : run ++ other <+: c.text := by
    rw [htext, ← hsplit, List.prefix_append_right_inj, hother]
    exact run_prefix q _ rest
  have hfits : run.length ≤ c.text.length := (List.prefix_append run other |>.trans hboth).length_le
  have hlength : (c.skip run.length).consumed.length = c.consumed.length + run.length := by
    have : run.length ≤ c.ahead.length := by simpa [Cursor.text] using hfits
    simp [skip_eq hfits, this]
  have hsince := on_consumedSince hboth.length_le
  have hupto : (consumeUpTo q c.consumed.length limit).on (c.skip run.length) = _ :=
    on_consumeUpTo q (by omega)
  rw [← List.prefix_iff_eq_take.1 hboth] at hsince
  rw [Cursor.text_skip htext, hdrop, hlength, Nat.add_sub_cancel_left, ← hother,
    Cursor.skip_skip, ← List.length_append] at hupto
  exact ⟨hupto, hsince⟩

end Run

section Range

variable {digits marks rest : List Char} (hex : ∀ d ∈ digits, isHexDigit d)
include hex

theorem not_mark : '?' ∉ digits := fun h => absurd (hex _ h) (by decide)

/-- In a range with question marks, each of them stands for any digit. -/
theorem forms_rangeToken_marks (all : ∀ d ∈ marks, d = '?') (nonempty : marks ≠ [])
    (htext : c.text = rest) : Forms (rangeToken (digits ++ marks)) c
      ⟨.ok (.unicodeRange (ofHexDigits (digits ++ marks.map fun _ => '0'))
        (ofHexDigits (digits ++ marks.map fun _ => 'F'))), rest, []⟩ := by
  have hfill (e : Char) : (digits ++ marks).map (fun d => if d = '?' then e else d) =
      digits ++ marks.map fun _ => e := by
    rw [List.map_append]
    congr 1
    · refine (List.map_congr_left fun d hd => if_neg ?_).trans (List.map_id' digits)
      rintro rfl
      exact not_mark hex hd
    · exact List.map_congr_left fun d hd => if_pos (all d hd)
  have hhexadecimal {e : Char} (he : isHexDigit e) :
      (hexadecimal (digits ++ marks.map fun _ => e)).on c =
        some (.ok (ofHexDigits (digits ++ marks.map fun _ => e)), c) := by
    refine on_hexadecimal (by simp [nonempty]) fun d hd => ?_
    rcases List.mem_append.1 hd with hd | hd
    · exact hex d hd
    · obtain ⟨-, -, rfl⟩ := List.mem_map.1 hd
      exact he
  have hcontains : (digits ++ marks).contains '?' := by
    obtain ⟨d, others, rfl⟩ := List.exists_cons_of_ne_nil nonempty
    simp [all d]
  refine ⟨c, ?_, .refl htext⟩
  have hlow := hhexadecimal (by decide : isHexDigit '0')
  have hhigh := hhexadecimal (by decide : isHexDigit 'F')
  simp only [rangeToken, hcontains, if_true, on_bind, hfill, hlow, hhigh, Option.bind_some,
    on_sourced]

omit hex in
theorem run_eq_nil_iff (text : List Char) :
    (text.takeWhile isHexDigit).take 6 = [] ↔ text.head?.any isHexDigit = false := by
  cases text with
  | nil => simp
  | cons d others => cases hd : isHexDigit d <;> simp [hd]

/-- A range without question marks is one ordinal, or goes on to another. -/
theorem forms_rangeToken_digits (nonempty : digits ≠ []) : Forms (rangeToken digits) c
    (Scanned.map .ok (match c.text with
      | '-' :: others =>
        let last := (others.takeWhile isHexDigit).take 6
        if last.isEmpty then ⟨.unicodeRange (ofHexDigits digits) (ofHexDigits digits), c.text, []⟩
        else ⟨.unicodeRange (ofHexDigits digits) (ofHexDigits last), others.drop last.length, []⟩
      | _ => ⟨.unicodeRange (ofHexDigits digits) (ofHexDigits digits), c.text, []⟩)) := by
  have hcontains : '?' ∉ digits := not_mark hex
  have hdigits (c' : Cursor) := on_hexadecimal (c := c') nonempty hex
  split
  · next others htext =>
    have hnext := Cursor.moves_next htext
    dsimp only
    split
    · next hlast =>
      rw [List.isEmpty_iff, run_eq_nil_iff, List.head?_eq_getElem?] at hlast
      refine ⟨c, ?_, .refl rfl⟩
      simp [rangeToken, hcontains, hdigits, htext, hlast]
    · next hlast =>
      set last := (others.takeWhile isHexDigit).take 6 with hrun
      have hne : last ≠ [] := by simpa using hlast
      obtain ⟨hupto, hsince⟩ := on_run hnext.text hrun
      have hhigh (c' : Cursor) := on_hexadecimal (c := c') hne fun d hd =>
        List.mem_takeWhile_imp (List.mem_of_mem_take hd)
      rw [Ne, hrun, run_eq_nil_iff, Bool.not_eq_false, List.head?_eq_getElem?] at hne
      refine ⟨_, ?_, hnext.trans (Cursor.moves_skip hnext.text last.length)⟩
      simp [rangeToken, hcontains, hdigits, htext, hne, hupto, hsince, hhigh]
  · next hother =>
    have hdash : c.text.head? ≠ some '-' := fun h =>
      have ⟨others, htext⟩ := List.head?_eq_some_iff.mp h
      hother others htext
    refine ⟨c, ?_, .refl rfl⟩
    simp [rangeToken, hcontains, hdigits, List.head?_take, hdash]

end Range

theorem digits_ne_nil {rest digits : List Char}
    (hrest : rest.head?.any fun d => d == '?' || isHexDigit d)
    (hdigits : digits = (rest.takeWhile isHexDigit).take 6)
    (hnone : ((rest.drop digits.length).takeWhile (· == '?')).take (6 - digits.length) = []) :
    digits ≠ [] := by
  rintro rfl
  rw [eq_comm, run_eq_nil_iff] at hdigits
  cases rest with
  | nil => simp at hrest
  | cons d others =>
    obtain rfl : d = '?' := by simpa [show isHexDigit d = false by simpa using hdigits] using hrest
    simp at hnone

theorem forms_unicodeRangeToken {first second : Char} {rest : List Char}
    (htext : c.text = first :: second :: rest)
    (hrest : rest.head?.any fun d => d == '?' || isHexDigit d) :
    Forms unicodeRangeToken c ((Lexer.unicodeRange rest).map .ok) := by
  have hopen := Cursor.moves_skip htext 2
  have hconsume : (consume 2).on c = some (.ok (), c.skip 2) :=
    on_consume (by decide) (by simp [htext])
  unfold Lexer.unicodeRange
  dsimp only
  set digits := (rest.takeWhile isHexDigit).take 6 with hdigits
  set marks := ((rest.drop digits.length).takeWhile (· == '?')).take (6 - digits.length) with hmarks
  obtain ⟨hondigits, -⟩ := on_run hopen.text hdigits
  obtain ⟨honmarks, hsince⟩ := on_secondRun hopen.text hdigits hmarks
  have hhex : ∀ d ∈ digits, isHexDigit d := fun d hd =>
    List.mem_takeWhile_imp (List.mem_of_mem_take hd)
  have hmark : ∀ d ∈ marks, d = '?' := fun d hd => by
    simpa using List.mem_takeWhile_imp (List.mem_of_mem_take hd)
  set c' := (c.skip 2).skip (digits ++ marks).length
  have hmoves : c.Moves c' ((rest.drop digits.length).drop marks.length) [] := by
    have := hopen.trans (Cursor.moves_skip hopen.text (digits ++ marks).length)
    rw [List.drop_drop, ← List.length_append]
    exact this
  have hrun : unicodeRangeToken.on c = (rangeToken (digits ++ marks)).on c' := by
    simp only [unicodeRangeToken, on_bind, hconsume, on_mark, hondigits, honmarks, hsince,
      Option.bind_some]
  split
  · next hnone =>
    rw [List.isEmpty_iff] at hnone
    have hforms := forms_rangeToken_digits (c := c') hhex (digits_ne_nil hrest hdigits hnone)
    rw [hmoves.text] at hforms
    rw [hnone, List.append_nil] at hrun
    have := Forms.of_moves hrun hmoves hforms
    rwa [Scanned.after_nil] at this
  · next hsome =>
    exact .of_moves hrun hmoves (forms_rangeToken_marks hhex hmark (by simpa using hsome) hmoves.text)

section First

variable {ch : Char} {rest : List Char} (htext : c.text = ch :: rest)
include htext

/-- Whether the code points after a number sign are a name, at the end of input as well. -/
theorem on_isValidEscape_peek (hslash : ch ≠ '\\') :
    (isValidEscape (rest.take 2)).on c.next = some (.ok (Lexer.startsEscape rest), c.next) := by
  cases rest with
  | nil =>
    have h := on_isValidEscape_next (c := c)
    rw [htext, Lexer.startsEscape_cons] at h
    simpa [beq_eq_false_iff_ne.2 hslash, Lexer.startsEscape] using h
  | cons d others => rw [on_isValidEscape (by simp), startsEscape_take]

theorem on_startsIdent_after (hnone : Lexer.startsName [ch] = false) :
    (startsIdent (rest.take 3)).on c.next = some (.ok (Lexer.startsName rest), c.next) := by
  have hcurrent : currentChar.on c.next = some (.ok (some ch), c.next) := by
    simp [htext]
  have h := on_startsIdent_peek hcurrent hnone
  rwa [Cursor.text_next, htext, List.tail_cons] at h

end First

theorem forms_hashToken {rest : List Char} (htext : c.text = '#' :: rest) :
    Forms hashToken c.next
      (if rest.head?.any isIdent || Lexer.startsEscape rest then
        (Lexer.name rest).map fun value =>
          .ok (.hash (String.ofList value) (Lexer.startsName rest))
      else ⟨.ok (.delim '#'), rest, []⟩) := by
  have hnext : c.next.text = rest := (Cursor.moves_next htext).text
  have hescape := on_isValidEscape_peek htext (by decide)
  have hident := on_startsIdent_after htext (by decide)
  have hname := forms_name (c := c.next) fun value => .hash value (Lexer.startsName rest)
  rw [hnext] at hname
  have hrun : hashToken.on c.next = if rest.head?.any isIdent || Lexer.startsEscape rest then
      (do sourced (.hash (String.ofList (← identSequence [])) (Lexer.startsName rest))).on c.next
    else (sourced (.delim '#')).on c.next := by
    simp only [hashToken, on_bind, on_peek, Option.bind_some, hnext, any_take_one, on_ite]
    cases rest.head?.any isIdent <;> cases hstarts : Lexer.startsEscape rest <;>
      simp [hnext, hescape, hident, hstarts]
  split at hrun
  · next hstarts =>
    rw [if_pos hstarts]
    exact .of_moves hrun (.refl hnext) hname
  · next hstarts =>
    rw [if_neg hstarts]
    exact .of_moves hrun (.refl hnext) (forms_sourced hnext _)

theorem startsUnsigned_take (text : List Char) :
    Numeral.startsUnsigned (text.take 2) = Numeral.startsUnsigned text := by
  match text with
  | [] => rfl
  | [d] => rfl
  | d :: e :: others =>
    by_cases hpoint : d = '.'
    · subst hpoint
      simp [Numeral.startsUnsigned_point]
    · simp [Numeral.startsUnsigned_other hpoint]

section First

variable {ch : Char} {rest : List Char} (htext : c.text = ch :: rest)
include htext

theorem on_startsNumber_next :
    startsNumber.on c.next = some (.ok (Numeral.starts (ch :: rest)), c.next) := by
  have hgiven : (givenOrCurrent [] 2).on c.next = some (.ok (ch :: rest.take 2), c.next) := by
    simp [givenOrCurrent, htext]
  rw [Numeral.starts_eq, startsNumber, on_bind, hgiven, Option.bind_some]
  by_cases hplus : ch = '+'
  · subst hplus
    simp [startsUnsigned_take, Numeral.scanSign]
  by_cases hminus : ch = '-'
  · subst hminus
    simp [startsUnsigned_take, Numeral.scanSign]
  rw [Numeral.scanSign_other (by simpa using hplus) (by simpa using hminus)]
  by_cases hpoint : ch = '.'
  · subst hpoint
    simp [Numeral.startsUnsigned_point, List.head?_take]
  · simp [Numeral.startsUnsigned_other hpoint]

omit htext in
theorem on_startOver (token : Procedure Token) : (startOver token).on c.next = token.on c := by
  simp [startOver]

end First

section Choice

open Lexer (Start)

variable {ch : Char} {rest : List Char} {rangesAllowed : Bool} {start : Start}

theorem no_pair (h : ch ∉ ['$', '*', '^', '~', '|']) (rest : List Char) :
    rest.head?.bind (Lexer.pair? ch) = none :=
  Option.eq_none_iff_forall_ne_some.2 fun _ hkind => h (Lexer.pair_first hkind)

/-- Ranges aside, the conditions on the first characters tell what the scanner does. -/
theorem token_of_chosen (h : Start.Chosen ch rest start)
    (hrange : ¬ (rangesAllowed && (ch = 'U' || ch = 'u') && Lexer.continuesRange rest)) :
    Lexer.token rangesAllowed ch rest = start.scan ch rest := by
  rw [Lexer.token_eq_scan, ← h.of_eq]
  simp only [Start.of, hrange, Bool.false_and]

theorem token_of_sign (h : Start.Chosen ch rest start) (hletter : ch ≠ 'U' ∧ ch ≠ 'u') :
    Lexer.token rangesAllowed ch rest = start.scan ch rest :=
  token_of_chosen h (by simp [hletter])

variable {p q : Procedure Token}

/-- A code point is consumed before the token that it chooses is formed. -/
theorem forms_next {s : Scanned (Computed TokenKind)} (h : Forms p c.next s) :
    Forms (do consume 1; p) c s :=
  .of_moves (by simp) (Cursor.moves_next rfl) h

/-- A code point is put back before the token that it chooses is formed. -/
theorem forms_again {s : Scanned (Computed TokenKind)} (hrun : p.on c.next = q.on c)
    (h : Forms q c s) : Forms (do consume 1; p) c s :=
  .of_moves (by simp [hrun]) (.refl rfl) h

variable (htext : c.text = ch :: rest)
include htext

theorem forms_whitespace (h : isWhitespace ch) :
    Forms (do consume 1; consumeWhile isWhitespace; sourced .whitespace) c
      (Lexer.token rangesAllowed ch rest) := by
  have hletter : ch ≠ 'U' ∧ ch ≠ 'u' := by
    constructor <;> rintro rfl <;> exact absurd h (by decide)
  obtain ⟨c', hon, hmoves⟩ := reads_consumeWhile (c := c.next) isWhitespace
  rw [Cursor.text_next, htext, List.tail_cons] at hmoves
  rw [token_of_sign (.whitespace h) hletter]
  exact forms_next ⟨c', by simp [hon, Start.scan], hmoves⟩

theorem forms_quote (h : ch = '"' ∨ ch = '\'') :
    Forms (do consume 1; stringToken) c (Lexer.token rangesAllowed ch rest) := by
  have hletter : ch ≠ 'U' ∧ ch ≠ 'u' := by rcases h with rfl | rfl <;> decide
  have hscan : Start.quote.scan ch rest =
      (Lexer.string ch rest).map fun value => .ok (stringKind value) := by
    rw [Start.scan]
    congr
    funext value
    cases value <;> rfl
  rw [token_of_sign (.quote h) hletter, hscan]
  exact forms_next (forms_stringToken htext)

theorem forms_hash (h : ch = '#') :
    Forms (do consume 1; hashToken) c (Lexer.token rangesAllowed ch rest) := by
  subst h
  have hforms := forms_next (forms_hashToken htext)
  split at hforms
  · next hname => rwa [token_of_sign (.hash rfl hname) (by decide)]
  · next hname => rwa [token_of_sign (.loneHash rfl hname) (by decide)]

theorem forms_lone (hsign : ch ∈ ['+', '.', '-', '<'])
    (hnumeral : ¬ Numeral.starts (ch :: rest)) (hclose : ch = '-' → rest.take 2 ≠ ['-', '>'])
    (hopen : ch = '<' → rest.take 3 ≠ ['!', '-', '-']) (hname : ¬ Lexer.startsName (ch :: rest))
    (hrun : p.on c.next = (sourced (.delim ch)).on c.next) :
    Forms (do consume 1; p) c (Lexer.token rangesAllowed ch rest) := by
  have hnext := (Cursor.moves_next htext).text
  simp only [List.mem_cons, List.not_mem_nil, or_false] at hsign
  have hlone : Start.Chosen ch rest (.lone ((Lexer.sign? ch).getD (.delim ch))) := by
    rcases hsign with rfl | rfl | rfl | rfl <;>
      exact .lone (by decide) (by decide) hnumeral (not_and.2 hclose) (not_and.2 hopen) hname
        (no_pair (by decide) rest)
  have hdelim : (Lexer.sign? ch).getD (.delim ch) = .delim ch := by
    rcases hsign with rfl | rfl | rfl | rfl <;> rfl
  have hletter : ch ≠ 'U' ∧ ch ≠ 'u' := by rcases hsign with rfl | rfl | rfl | rfl <;> decide
  rw [token_of_sign hlone hletter, hdelim]
  exact forms_next (.of_moves hrun (.refl hnext) (forms_sourced hnext _))

theorem forms_numeral (hstarts : Numeral.starts (ch :: rest))
    (hrun : p.on c.next = numericToken.on c) :
    Forms (do consume 1; p) c (Lexer.token rangesAllowed ch rest) := by
  have hletter : ch ≠ 'U' ∧ ch ≠ 'u' := by
    constructor <;> rintro rfl <;> rw [Lexer.not_starts_of_le (by decide)] at hstarts <;>
      exact absurd hstarts (by decide)
  have hforms := forms_numericToken (c := c) (htext ▸ hstarts)
  rw [htext] at hforms
  rw [token_of_sign (.numeral hstarts) hletter]
  exact forms_again hrun hforms

theorem forms_sign (h : ch = '+' ∨ ch = '.') :
    Forms (do consume 1; if ← startsNumber then startOver numericToken else sourced (.delim ch)) c
      (Lexer.token rangesAllowed ch rest) := by
  have hstarts := on_startsNumber_next htext
  by_cases hnumeral : Numeral.starts (ch :: rest)
  · exact forms_numeral htext hnumeral (by simp [hstarts, hnumeral, on_startOver])
  · refine forms_lone htext (by rcases h with rfl | rfl <;> decide) hnumeral ?_ ?_ ?_ ?_
    · rcases h with rfl | rfl <;> simp
    · rcases h with rfl | rfl <;> simp
    · have hident : isIdent ch = false ∧ ch ≠ '\\' := by rcases h with rfl | rfl <;> decide
      simp [Lexer.not_startsName hident.1 hident.2]
    · simp [hstarts, hnumeral]

theorem forms_mark {n : ℕ} {marks : List Char} {kind : TokenKind} (hmark : rest.take n = marks)
    (hpos : 0 < n) (hlength : n ≤ marks.length)
    (hscan : Lexer.token rangesAllowed ch rest = ⟨.ok kind, rest.drop n, []⟩)
    (hrun : p.on c.next = (do consume n; sourced kind).on c.next) :
    Forms (do consume 1; p) c (Lexer.token rangesAllowed ch rest) := by
  have hnext : c.next.text = rest := (Cursor.moves_next htext).text
  have hfits : n ≤ c.next.text.length := by
    rw [hnext]
    exact hlength.trans (hmark ▸ List.length_take_le' n rest)
  have hskip := Cursor.moves_skip hnext n
  rw [hscan]
  refine forms_next (.of_moves ?_ hskip (forms_sourced hskip.text kind))
  simp [hrun, on_consume hpos hfits]

theorem forms_identLike (hnumeral : ¬ Numeral.starts (ch :: rest))
    (hclose : ch = '-' → rest.take 2 ≠ ['-', '>']) (hstarts : Lexer.startsName (ch :: rest))
    (hrange : ¬ (rangesAllowed && (ch = 'U' || ch = 'u') && Lexer.continuesRange rest))
    (hrun : p.on c.next = identLikeToken.on c) :
    Forms (do consume 1; p) c (Lexer.token rangesAllowed ch rest) := by
  have hforms := forms_identLikeToken (c := c)
  rw [htext] at hforms
  rw [token_of_chosen (.name hnumeral (not_and.2 hclose) hstarts) hrange]
  exact forms_again hrun hforms

theorem forms_dash (h : ch = '-') :
    Forms (do
      consume 1
      if ← startsNumber then startOver numericToken
      else if (← peek 2) = ['-', '>'] then
        consume 2
        sourced .commentClose
      else if ← startsIdent [] then startOver identLikeToken
      else sourced (.delim ch)) c (Lexer.token rangesAllowed ch rest) := by
  have hstarts := on_startsNumber_next htext
  have hident := on_startsIdent_next htext
  have hnext : c.next.text = rest := (Cursor.moves_next htext).text
  rw [htext] at hident
  subst h
  by_cases hnumeral : Numeral.starts ('-' :: rest)
  · exact forms_numeral htext hnumeral (by simp [hstarts, hnumeral, on_startOver])
  by_cases hclose : rest.take 2 = ['-', '>']
  · exact forms_mark htext hclose (by decide) (by decide)
      (token_of_sign (.commentClose rfl hclose) (by decide))
      (by simp [hstarts, hnumeral, hnext, hclose])
  by_cases hname : Lexer.startsName ('-' :: rest)
  · exact forms_identLike htext hnumeral (fun _ => hclose) hname (by simp)
      (by simp [hstarts, hnumeral, hnext, hclose, hident, hname, on_startOver])
  · exact forms_lone htext (by decide) hnumeral (fun _ => hclose) (by simp) hname
      (by simp [hstarts, hnumeral, hnext, hclose, hident, hname])

theorem forms_less (h : ch = '<') :
    Forms (do
      consume 1
      if (← peek 3) = ['!', '-', '-'] then
        consume 3
        sourced .commentOpen
      else sourced (.delim ch)) c (Lexer.token rangesAllowed ch rest) := by
  have hnext : c.next.text = rest := (Cursor.moves_next htext).text
  subst h
  by_cases hopen : rest.take 3 = ['!', '-', '-']
  · exact forms_mark htext hopen (by decide) (by decide)
      (token_of_sign (.commentOpen rfl hopen) (by decide)) (by simp [hnext, hopen])
  · refine forms_lone htext (by decide) ?_ (by simp) (fun _ => hopen) ?_ (by simp [hnext, hopen])
    · rw [Lexer.not_starts (by decide) (by decide) (by decide)]
      decide
    · rw [Lexer.not_startsName (by decide) (by decide)]
      decide

theorem forms_at (h : ch = '@') :
    Forms (do
      consume 1
      if ← startsIdent (← peek 3) then
        let name ← identSequence []
        sourced (.atKeyword (String.ofList name))
      else sourced (.delim ch)) c (Lexer.token rangesAllowed ch rest) := by
  have hnext : c.next.text = rest := (Cursor.moves_next htext).text
  subst h
  have hident := on_startsIdent_after htext (by decide)
  by_cases hname : Lexer.startsName rest
  · have hforms := forms_name (c := c.next) .atKeyword
    rw [hnext] at hforms
    rw [token_of_sign (.atKeyword rfl hname) (by decide)]
    exact forms_next (.of_moves (by simp [hnext, hident, hname]) (.refl hnext) hforms)
  · rw [token_of_sign (.loneAt rfl hname) (by decide)]
    exact forms_next (.of_moves (by simp [hnext, hident, hname]) (.refl hnext)
      (forms_sourced hnext _))

theorem forms_backslash (h : ch = '\\') :
    Forms (do
      consume 1
      if ← isValidEscape [] then startOver identLikeToken
      else
        report .invalidEscape
        sourced (.delim ch)) c (Lexer.token rangesAllowed ch rest) := by
  have hnext := Cursor.moves_next htext
  subst h
  have hescape := on_isValidEscape_next (c := c)
  have hname : Lexer.startsName ('\\' :: rest) = Lexer.startsEscape ('\\' :: rest) := by
    rw [Lexer.startsName_cons _ (by decide)]
    rfl
  rw [htext, ← hname] at hescape
  by_cases hstarts : Lexer.startsName ('\\' :: rest)
  · refine forms_identLike htext ?_ (by simp) hstarts (by simp)
      (by simp [hescape, hstarts, on_startOver])
    rw [Lexer.not_starts (by decide) (by decide) (by decide)]
    decide
  · rw [token_of_sign (.backslash rfl hstarts) (by decide)]
    have hreport := Cursor.moves_report hnext.text .invalidEscape
    exact forms_next (.of_moves (by simp [hescape, hstarts]) hreport (forms_sourced hreport.text _))

omit htext in
theorem startsRange_take (h : ch = 'U' ∨ ch = 'u') (rest : List Char) :
    startsRange ((ch :: rest).take 3) = Lexer.continuesRange rest := by
  unfold Lexer.continuesRange
  split
  · simp [startsRange, h]
  · next hother =>
    match rest with
    | [] => simp [startsRange]
    | [d] => simp [startsRange]
    | d :: e :: others =>
      have hplus : d ≠ '+' := fun heq => hother e others (heq ▸ rfl)
      simp [startsRange, hplus]

omit htext in
theorem token_range (h : ch = 'U' ∨ ch = 'u') (hrange : Lexer.continuesRange rest) :
    Lexer.token true ch rest = (Lexer.unicodeRange (rest.drop 1)).map .ok := by
  have hstarts : Numeral.starts (ch :: rest) = false :=
    Lexer.not_starts_of_le (by rcases h with rfl | rfl <;> decide) rest
  have hclass : isWhitespace ch = false ∧ ch ≠ '"' ∧ ch ≠ '\'' ∧ ch ≠ '#' ∧ ch ≠ '-' ∧ ch ≠ '<' ∧
      ch ≠ '@' := by
    rcases h with rfl | rfl <;> decide
  simp [Lexer.token, h, hrange, hstarts, hclass]

theorem forms_letter (h : ch = 'U' ∨ ch = 'u') :
    Forms (do
      consume 1
      startOver do
        if rangesAllowed && startsRange (← peek 3) then unicodeRangeToken else identLikeToken) c
      (Lexer.token rangesAllowed ch rest) := by
  have hstarts := startsRange_take h rest
  rw [← htext] at hstarts
  by_cases hrange : rangesAllowed && Lexer.continuesRange rest
  · obtain ⟨rfl, hcontinues⟩ := Bool.and_eq_true_iff.1 hrange
    obtain ⟨d, others, rfl, hd⟩ :
        ∃ d others, rest = '+' :: d :: others ∧ (d == '?' || isHexDigit d) := by
      unfold Lexer.continuesRange at hcontinues
      split at hcontinues
      · exact ⟨_, _, rfl, hcontinues⟩
      · cases hcontinues
    rw [token_range h hcontinues]
    refine forms_again ?_ (forms_unicodeRangeToken htext (by simpa using hd))
    simp [on_startOver, hstarts, hcontinues]
  · have hrest : ¬ (rangesAllowed && (ch = 'U' || ch = 'u') && Lexer.continuesRange rest) := by
      simpa [h] using hrange
    refine forms_identLike htext ?_ ?_ ?_ hrest ?_
    · rw [Lexer.not_starts_of_le (by rcases h with rfl | rfl <;> decide)]
      decide
    · rcases h with rfl | rfl <;> simp
    · rcases h with rfl | rfl <;> rfl
    · simp only [on_startOver, on_bind, on_peek, Option.bind_some, hstarts, if_neg hrange]

theorem forms_digit (h : isDigit ch) : Forms (do consume 1; startOver numericToken) c
    (Lexer.token rangesAllowed ch rest) := by
  obtain ⟨hplus, hminus, hpoint⟩ := Numeral.isDigit_ne h
  have hstarts : Numeral.starts (ch :: rest) := by
    rw [Numeral.starts_eq, Numeral.scanSign_other (by simpa using hplus) (by simpa using hminus),
      Numeral.startsUnsigned_other hpoint]
    exact h
  exact forms_numeral htext hstarts (on_startOver _)

theorem forms_ident (h : isIdentStart ch) (hletter : ¬ (ch = 'U' ∨ ch = 'u')) :
    Forms (do consume 1; startOver identLikeToken) c (Lexer.token rangesAllowed ch rest) := by
  have hdash : ch ≠ '-' := by
    rintro rfl
    exact absurd h (by decide)
  refine forms_identLike htext ?_ (fun heq => absurd heq hdash) ?_ ?_ (on_startOver _)
  · simp [Lexer.not_starts_of_le (Lexer.le_of_isIdentStart h)]
  · simp [Lexer.startsName_cons _ hdash, h]
  · simp [hletter]

theorem forms_other (hspace : ¬ isWhitespace ch) (hquote : ¬ (ch = '"' ∨ ch = '\''))
    (hsign : ch ∉ ['#', '+', '.', '-', '<', '@', '\\']) (hdigit : ¬ isDigit ch)
    (hident : ¬ isIdentStart ch) :
    Forms (do
      consume 1
      match (← peek 1).head?.bind (Lexer.pair? ch) with
      | some kind =>
        consume 1
        sourced kind
      | none => sourced ((Lexer.sign? ch).getD (.delim ch))) c
      (Lexer.token rangesAllowed ch rest) := by
  have hnext : c.next.text = rest := (Cursor.moves_next htext).text
  simp only [List.mem_cons, List.not_mem_nil, or_false, not_or] at hsign hquote
  have hpart : isIdent ch = false := by
    have hdash : ch.toNat ≠ 0x2d := fun h => hsign.2.2.2.1 (Char.toNat_inj.1 h)
    simp only [isIdentStart, isDigit, Bool.not_eq_true] at hident hdigit
    simp [isIdent, Ordinal.isIdent, hident, hdigit, hdash]
  have hletter : ch ≠ 'U' ∧ ch ≠ 'u' := by
    constructor <;> rintro rfl <;> exact absurd hident (by decide)
  cases hpair : rest.head?.bind (Lexer.pair? ch) with
  | some kind =>
    have hsecond := Cursor.moves_next hnext
    rw [← List.drop_one] at hsecond
    rw [token_of_sign (.pair kind hpair) hletter]
    refine forms_next (.of_moves ?_ hsecond (forms_sourced hsecond.text kind))
    simp [hnext, List.head?_take, hpair]
  | none =>
    have hlone : Start.Chosen ch rest (.lone ((Lexer.sign? ch).getD (.delim ch))) := by
      refine .lone hspace (by simp [hsign, hquote]) ?_ (by simp [hsign]) (by simp [hsign]) ?_ hpair
      · simp [Lexer.not_starts hpart hsign.2.1 hsign.2.2.1]
      · simp [Lexer.not_startsName hpart hsign.2.2.2.2.2.2]
    rw [token_of_sign hlone hletter]
    refine forms_next (.of_moves ?_ (.refl hnext) (forms_sourced hnext _))
    simp [hnext, List.head?_take, hpair]

/-- The procedure forms the token that the scanner finds. -/
theorem forms_token :
    Forms (do consume 1; tokenFrom rangesAllowed ch) c (Lexer.token rangesAllowed ch rest) := by
  unfold tokenFrom
  by_cases hspace : isWhitespace ch
  · rw [if_pos hspace]
    exact forms_whitespace htext hspace
  rw [if_neg hspace]
  by_cases hquote : ch = '"' ∨ ch = '\''
  · rw [if_pos (by simpa using hquote)]
    exact forms_quote htext hquote
  rw [if_neg (by simpa using hquote)]
  by_cases hhash : ch = '#'
  · rw [if_pos hhash]
    exact forms_hash htext hhash
  rw [if_neg hhash]
  by_cases hsign : ch = '+' ∨ ch = '.'
  · rw [if_pos (by simpa using hsign)]
    exact forms_sign htext hsign
  rw [if_neg (by simpa using hsign)]
  by_cases hdash : ch = '-'
  · rw [if_pos hdash]
    exact forms_dash htext hdash
  rw [if_neg hdash]
  by_cases hless : ch = '<'
  · rw [if_pos hless]
    exact forms_less htext hless
  rw [if_neg hless]
  by_cases hat : ch = '@'
  · rw [if_pos hat]
    exact forms_at htext hat
  rw [if_neg hat]
  by_cases hslash : ch = '\\'
  · rw [if_pos hslash]
    exact forms_backslash htext hslash
  rw [if_neg hslash]
  by_cases hdigit : isDigit ch
  · rw [if_pos hdigit]
    exact forms_digit htext hdigit
  rw [if_neg hdigit]
  by_cases hletter : ch = 'U' ∨ ch = 'u'
  · rw [if_pos (by simpa using hletter)]
    exact forms_letter htext hletter
  rw [if_neg (by simpa using hletter)]
  by_cases hident : isIdentStart ch
  · rw [if_pos hident]
    exact forms_ident htext hident hletter
  rw [if_neg hident]
  exact forms_other htext hspace hquote (by simp_all) hdigit hident

end Choice

end Procedure

end StyleValue
