import StyleValue.Proofs.Token.Boundary.Name
import StyleValue.Proofs.Token.Comment
import StyleValue.Proofs.Token.Procedure.Run
import StyleValue.Proofs.Token.Procedure.Tokenize

/-!
# Comments, escapes and names by procedures

The procedures for comments, escapes and names make of the text what the scanners do, and their
side conditions hold: an escape collects at least one digit, and at most what a scalar value or the
replacement character is made of.
-/

set_option autoImplicit false

namespace StyleValue

namespace Procedure

variable {c : Cursor}

def comment (body : List Char) : Scanned Bool :=
  match Lexer.afterComment? body with
  | some rest => ⟨true, rest, []⟩
  | none => ⟨false, [], [.unterminatedComment]⟩

theorem reads_commentBody : Reads commentBody c (comment c.text) := by
  induction htext : c.text using Lexer.afterComment?.induct generalizing c with
  | case1 =>
    refine ⟨_, ?_, Cursor.moves_report htext .unterminatedComment⟩
    rw [commentBody_eq, commentBodyRound]
    simp [htext, comment, Lexer.afterComment?]
  | case2 rest =>
    refine ⟨_, ?_, Cursor.moves_skip htext 2⟩
    rw [commentBody_eq, commentBodyRound]
    simp [htext, on_consume, comment, Lexer.afterComment?]
  | case3 ch rest hother ih =>
    have hmore : ch = '*' → rest.take 1 ≠ ['/'] := by
      rintro rfl h
      cases rest with
      | nil => cases h
      | cons d rest =>
        cases h
        exact hother rest rfl rfl
    have hon : commentBody.on c = commentBody.on c.next := by
      conv_lhs => rw [commentBody_eq, commentBodyRound]
      by_cases hstar : ch = '*'
      · simp [htext, hstar, hmore hstar]
      · simp [htext, hstar]
    rw [comment, Lexer.afterComment?.eq_3 _ _ hother]
    exact .of_moves hon (Cursor.moves_next htext) (ih (by simp [htext]))

theorem on_comments {body : List Char} (htext : c.text = '/' :: '*' :: body) :
    ∃ c', (comments.on c = if (comment body).value then comments.on c' else some (.ok (), c')) ∧
      c.Moves c' (comment body).rest (comment body).reports := by
  have hskip : (c.skip 2).text = body := Cursor.text_skip htext 2
  obtain ⟨c', hon, hmoves⟩ := reads_commentBody (c := c.skip 2)
  rw [hskip] at hon hmoves
  refine ⟨c', ?_, (Cursor.moves_skip htext 2).trans hmoves⟩
  conv_lhs => rw [comments_eq, commentRound]
  cases hvalue : (comment body).value <;> simp [htext, on_consume, hon, hvalue]

theorem reads_comments : Reads comments c (Lexer.comments c.text) := by
  induction htext : c.text using Lexer.comments.induct generalizing c with
  | case1 body rest hafter ih =>
    obtain ⟨c', hon, hmoves⟩ := on_comments htext
    simp only [comment, hafter] at hon hmoves
    rw [Lexer.comments_closed hafter]
    exact .of_moves hon hmoves (ih hmoves.text)
  | case2 body hafter =>
    obtain ⟨c', hon, hmoves⟩ := on_comments htext
    simp only [comment, hafter] at hon hmoves
    rw [Lexer.comments_endless hafter]
    exact ⟨c', hon, hmoves⟩
  | case3 text hother =>
    rw [Lexer.comments_other hother]
    refine ⟨c, ?_, Cursor.Moves.refl htext⟩
    rw [comments_eq, commentRound]
    have hopen : text.take 2 ≠ ['/', '*'] := by
      match text with
      | [] => simp
      | [d] => simp
      | d :: e :: body =>
        intro h
        cases h
        exact hother body rfl
    simp [htext, hopen]

theorem startsEscape_eq (text : List Char) :
    Lexer.startsEscape text = (text.head? == some '\\' && !text[1]?.any isNewline) := by
  match text with
  | [] => rfl
  | [d] => simp [Lexer.startsEscape_cons]
  | d :: e :: others => simp [Lexer.startsEscape_cons]

theorem on_isValidEscape {given : List Char} (h : given ≠ []) :
    (isValidEscape given).on c = some (.ok (Lexer.startsEscape given), c) := by
  simp [isValidEscape, givenOrCurrent, h, startsEscape_eq]

/-- Whether the code point consumed last and the next are an escape. -/
theorem on_isValidEscape_next :
    (isValidEscape []).on c.next = some (.ok (Lexer.startsEscape c.text), c.next) := by
  cases htext : c.text <;> simp [isValidEscape, givenOrCurrent, htext, startsEscape_eq]

theorem on_hexadecimal {digits : List Char} (hne : digits ≠ []) (h : ∀ d ∈ digits, isHexDigit d) :
    (hexadecimal digits).on c = some (.ok (ofHexDigits digits), c) := by
  have hall : digits.all isHexDigit := List.all_eq_true.2 h
  simp [hexadecimal, hne, hall]

theorem on_anyCharacter (ordinal : ℕ) :
    (anyCharacter ordinal).on c = some (.ok (charOfOrdinal ordinal), c) := by
  rw [anyCharacter, charOfOrdinal, on_ite]
  simp only [Bool.or_eq_true, decide_eq_true_eq, or_assoc]
  split
  · rfl
  · next h =>
    simp only [Ordinal.isSurrogate, Bool.and_eq_true, decide_eq_true_eq] at h
    have hvalid : ordinal.isValidChar := by
      unfold Nat.isValidChar
      omega
    simp [character, hvalid]

theorem on_escapeDigits {ch : Char} {rest : List Char} (htext : c.text = ch :: rest) :
    let run := (rest.takeWhile isHexDigit).take 5
    (consumeUpTo isHexDigit c.next.consumed.length 5).on c.next =
        some (.ok (), c.skip (run.length + 1)) ∧
      (consumedSince (c.next.consumed.length - 1)).on (c.skip (run.length + 1)) =
        some (.ok (ch :: run), c.skip (run.length + 1)) := by
  intro run
  have hnext : c.next.text = rest := (Cursor.moves_next htext).text
  have hrun : run <+: rest := run_prefix isHexDigit 5 rest
  have hlength : run.length + 1 ≤ c.text.length := by
    rw [htext]
    exact Nat.succ_le_succ hrun.length_le
  constructor
  · have hupto : (consumeUpTo isHexDigit c.next.consumed.length 5).on c.next = _ :=
      on_consumeUpTo isHexDigit le_rfl
    rwa [hnext, Nat.sub_self] at hupto
  · have := on_consumedSince hlength
    rw [htext, List.take_succ_cons, ← List.prefix_iff_eq_take.1 hrun] at this
    simpa [Cursor.next] using this

theorem reads_escapedCodePoint : Reads escapedCodePoint c (Lexer.escape c.text) := by
  cases htext : c.text with
  | nil =>
    have hnext := Cursor.moves_next htext
    refine ⟨_, ?_, hnext.trans (Cursor.moves_report hnext.text .escapeAtEnd)⟩
    simp [escapedCodePoint, htext, Lexer.escape]
  | cons ch rest =>
    by_cases hhex : isHexDigit ch
    · obtain ⟨hupto, hsince⟩ := on_escapeDigits htext
      set run := (rest.takeWhile isHexDigit).take 5
      have hskip := Cursor.moves_skip htext (run.length + 1)
      have hrun : ∀ d ∈ ch :: run, isHexDigit d := by
        simp only [List.mem_cons, forall_eq_or_imp, hhex, true_and]
        exact fun d hd => List.mem_takeWhile_imp (List.mem_of_mem_take hd)
      have hescape : Lexer.escape (ch :: rest) =
          ⟨charOfOrdinal (ofHexDigits (ch :: run)), Lexer.dropSpace (rest.drop run.length), []⟩ := by
        simp [Lexer.escape, hhex, run]
      rw [hescape]
      have hon (c' : Cursor) := on_hexadecimal (c := c') (List.cons_ne_nil ch run) hrun
      rw [List.drop_succ_cons] at hskip
      cases htail : rest.drop run.length with
      | nil =>
        rw [htail] at hskip
        refine ⟨_, ?_, hskip⟩
        simp [-List.any_eq_true, escapedCodePoint, htext, hhex, hupto, hsince, hskip.text, hon,
          on_anyCharacter]
      | cons d others =>
        rw [htail] at hskip
        by_cases hspace : isWhitespace d
        · rw [Lexer.dropSpace, if_pos hspace]
          refine ⟨_, ?_, hskip.trans (Cursor.moves_next hskip.text)⟩
          simp [-List.any_eq_true, escapedCodePoint, htext, hhex, hupto, hsince, hskip.text, hspace,
            hon, on_anyCharacter]
        · rw [Lexer.dropSpace, if_neg hspace]
          refine ⟨_, ?_, hskip⟩
          simp [-List.any_eq_true, escapedCodePoint, htext, hhex, hupto, hsince, hskip.text, hspace,
            hon, on_anyCharacter]
    · rw [Lexer.escape, if_neg hhex]
      refine ⟨_, ?_, Cursor.moves_next htext⟩
      simp [escapedCodePoint, htext, hhex]

/-- An escape is read after its backslash. -/
theorem on_escapedCodePoint_next {d : Char} {rest : List Char} (htext : c.text = d :: rest) :
    ∃ c', escapedCodePoint.on c.next = some (.ok (Lexer.escape rest).value, c') ∧
      c.Moves c' (Lexer.escape rest).rest (Lexer.escape rest).reports := by
  have hnext := Cursor.moves_next htext
  obtain ⟨c', hon, hmoves⟩ := reads_escapedCodePoint (c := c.next)
  rw [hnext.text, List.tail_cons] at hon hmoves
  exact ⟨c', hon, hnext.trans hmoves⟩

theorem reads_identSequence (front : List Char) :
    Reads (identSequence front) c ((Lexer.name c.text).map (front ++ ·)) := by
  generalize htext : c.text = text
  fun_induction Lexer.name text generalizing c front with
  | case1 =>
    refine ⟨c, ?_, .refl htext⟩
    rw [identSequence_eq, identRound]
    simp [htext, on_isValidEscape_next, Lexer.startsEscape]
  | case2 ch rest hident ih =>
    have hnext := Cursor.moves_next htext
    have hon : (identSequence front).on c = (identSequence (front ++ [ch])).on c.next := by
      conv_lhs => rw [identSequence_eq, identRound]
      simp [htext, hident]
    simpa [Scanned.map, Scanned.after] using Reads.of_moves hon hnext (ih (front ++ [ch]) hnext.text)
  | case3 ch rest hident hescape escaped =>
    rename_i ih
    obtain ⟨c', hescaped, hmoves⟩ := on_escapedCodePoint_next htext
    have hon : (identSequence front).on c = (identSequence (front ++ [escaped.value])).on c' := by
      conv_lhs => rw [identSequence_eq, identRound]
      simp [htext, hident, on_isValidEscape_next, hescape, hescaped, escaped]
    simpa [Scanned.map, Scanned.after] using
      Reads.of_moves hon hmoves (ih (front ++ [escaped.value]) hmoves.text)
  | case4 ch rest hident hescape =>
    refine ⟨c, ?_, .refl htext⟩
    rw [identSequence_eq, identRound]
    simp [htext, hident, hescape, on_isValidEscape_next]

/-- A token of the name to come. -/
theorem forms_name (kind : String → TokenKind) :
    Forms (do sourced (kind (String.ofList (← identSequence [])))) c
      ((Lexer.name c.text).map fun name => .ok (kind (String.ofList name))) := by
  obtain ⟨c', hon, hmoves⟩ := reads_identSequence (c := c) []
  exact ⟨c', by simp [hon], hmoves⟩

/-- Two characters decide on an escape. -/
theorem startsEscape_take (text : List Char) :
    Lexer.startsEscape (text.take 2) = Lexer.startsEscape text := by
  simp [startsEscape_eq, List.head?_take]

theorem startsName_take (text : List Char) :
    Lexer.startsName (text.take 3) = Lexer.startsName text := by
  match text with
  | [] => rfl
  | ch :: others =>
    by_cases hdash : ch = '-'
    · subst hdash
      simp [Lexer.startsName, startsEscape_take, List.head?_take]
    · rw [List.take_succ_cons, Lexer.startsName_cons _ hdash, Lexer.startsName_cons _ hdash,
        Lexer.startsEscape_cons, Lexer.startsEscape_cons, List.head?_take]
      simp

/-- A name is decided on by the characters given. After a hyphen alone, the code point consumed last
is taken for the start of an escape, which it must not be. -/
theorem on_startsIdent {given : List Char} (hne : given ≠ [])
    (hlast : given = ['-'] → (isValidEscape []).on c = some (.ok false, c)) :
    (startsIdent given).on c = some (.ok (Lexer.startsName given), c) := by
  obtain ⟨ch, others, rfl⟩ := List.exists_cons_of_ne_nil hne
  by_cases hdash : ch = '-'
  · subst hdash
    have hescape : (isValidEscape (others.take 2)).on c =
        some (.ok (Lexer.startsEscape others), c) := by
      match others with
      | [] => exact hlast rfl
      | d :: others => rw [on_isValidEscape (by simp), startsEscape_take]
    simp only [Lexer.startsName]
    cases hany : others.head?.any fun c => isIdentStart c || c == '-' <;>
      simp [startsIdent, givenOrCurrent, hescape, hany]
  · have hescape : (isValidEscape ((ch :: others).take 2)).on c =
        some (.ok (Lexer.startsEscape (ch :: others)), c) := by
      rw [on_isValidEscape (by simp), startsEscape_take]
    rw [Lexer.startsName_cons _ hdash]
    by_cases hstart : isIdentStart ch
    · simp [startsIdent, givenOrCurrent, hstart]
    · by_cases hslash : ch = '\\'
      · subst hslash
        simpa [startsIdent, givenOrCurrent, hstart] using hescape
      · simp [startsIdent, givenOrCurrent, hstart, hslash, Lexer.startsEscape_cons]

/-- The next characters decide on a name, or the one consumed last if there is none. -/
theorem on_startsIdent_peek {d : Char} (hcurrent : currentChar.on c = some (.ok (some d), c))
    (hnone : Lexer.startsName [d] = false) :
    (startsIdent (c.text.take 3)).on c = some (.ok (Lexer.startsName c.text), c) := by
  have hslash : d ≠ '\\' := by
    rintro rfl
    revert hnone
    decide
  have hlast : (isValidEscape []).on c = some (.ok false, c) := by
    simp [isValidEscape, givenOrCurrent, hcurrent, hslash]
  cases htext : c.text with
  | nil =>
    have hgiven := on_startsIdent (c := c) (List.cons_ne_nil d []) fun _ => hlast
    rw [hnone] at hgiven
    refine Eq.trans ?_ hgiven
    simp [startsIdent, givenOrCurrent, hcurrent, htext]
  | cons ch rest =>
    rw [on_startsIdent (by simp) fun _ => hlast, startsName_take]

/-- The code point consumed last and the next decide on a name. -/
theorem on_startsIdent_next {ch : Char} {rest : List Char} (htext : c.text = ch :: rest) :
    (startsIdent []).on c.next = some (.ok (Lexer.startsName c.text), c.next) := by
  have hgiven := on_startsIdent (c := c.next) (List.cons_ne_nil ch (rest.take 2)) fun h => by
    obtain ⟨rfl, -⟩ := List.cons.inj h
    rw [on_isValidEscape_next, htext]
    rfl
  rw [← List.take_succ_cons, startsName_take, ← htext] at hgiven
  rw [← hgiven]
  simp [startsIdent, givenOrCurrent, htext]

end Procedure

end StyleValue
