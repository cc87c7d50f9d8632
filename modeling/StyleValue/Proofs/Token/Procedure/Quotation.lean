import StyleValue.Proofs.Token.Boundary.Token
import StyleValue.Proofs.Token.Procedure.Name

/-!
# Strings and URLs by procedures

What follows a quote or the parenthesis of a URL is collected code point by code point, which gives
the values that the scanners give. A newline is put back right after it was consumed.
-/

set_option autoImplicit false

namespace StyleValue

def stringKind : Option (List Char) → TokenKind
  | some value => .string (String.ofList value)
  | none => .badString

namespace Procedure

variable {c : Cursor}

theorem forms_stringRest (quote : Char) (front : List Char) :
    Forms (stringRest (some quote) front) c
      ((Lexer.string quote c.text).map fun value => .ok (stringKind (value.map (front ++ ·)))) := by
  generalize htext : c.text = text
  fun_induction Lexer.string quote text generalizing c front with
  | case1 =>
    have hnext := Cursor.moves_next htext
    refine ⟨_, ?_, hnext.trans (Cursor.moves_report hnext.text .unterminatedString)⟩
    rw [stringRest_eq, stringRound]
    simp [htext, stringKind]
  | case2 rest =>
    refine ⟨_, ?_, Cursor.moves_next htext⟩
    rw [stringRest_eq, stringRound]
    simp [htext, stringKind]
  | case3 d rest hquote hnewline =>
    refine ⟨_, ?_, Cursor.moves_report htext .newlineInString⟩
    rw [stringRest_eq, stringRound]
    simp [htext, hquote, hnewline, Cursor.report_next, stringKind]
  | case4 hquote hnewline =>
    have hnext := Cursor.moves_next htext
    have hend := hnext.trans (Cursor.moves_next hnext.text)
    refine ⟨_, ?_, hend.trans (Cursor.moves_report hend.text .unterminatedString)⟩
    rw [stringRest_eq, stringRound]
    simp [htext, hquote, hnewline, stringKind]
    rw [stringRest_eq, stringRound]
    simp [htext]
  | case5 d rest hd hquote hnewline =>
    rename_i ih
    have hnext := Cursor.moves_next htext
    have hjoined := hnext.trans (Cursor.moves_next hnext.text)
    have hon : (stringRest (some quote) front).on c =
        (stringRest (some quote) front).on c.next.next := by
      conv_lhs => rw [stringRest_eq, stringRound]
      simp [-List.any_eq_true, htext, hquote, hnewline, hd]
    exact .of_moves hon hjoined (ih front hjoined.text)
  | case6 d rest hd escaped hquote hnewline =>
    rename_i ih
    obtain ⟨c', hescaped, hmoves⟩ := on_escapedCodePoint_next htext
    have hon : (stringRest (some quote) front).on c =
        (stringRest (some quote) (front ++ [escaped.value])).on c' := by
      conv_lhs => rw [stringRest_eq, stringRound]
      simp [-List.any_eq_true, htext, hquote, hnewline, hd, hescaped, escaped]
    simpa [Scanned.map, Scanned.after, Function.comp_def, escaped] using
      Forms.of_moves hon hmoves (ih (front ++ [escaped.value]) hmoves.text)
  | case7 d rest hquote hnewline hslash =>
    rename_i ih
    have hnext := Cursor.moves_next htext
    have hon : (stringRest (some quote) front).on c =
        (stringRest (some quote) (front ++ [d])).on c.next := by
      conv_lhs => rw [stringRest_eq, stringRound]
      simp [htext, hquote, hnewline, hslash]
    simpa [Scanned.map, Scanned.after, Function.comp_def] using
      Forms.of_moves hon hnext (ih (front ++ [d]) hnext.text)

theorem forms_stringToken {quote : Char} {rest : List Char} (htext : c.text = quote :: rest) :
    Forms stringToken c.next
      ((Lexer.string quote rest).map fun value => .ok (stringKind value)) := by
  have hnext : c.next.text = rest := (Cursor.moves_next htext).text
  have hrest := forms_stringRest (c := c.next) quote []
  rw [hnext] at hrest
  obtain ⟨c', hon, hmoves⟩ := hrest
  refine ⟨c', ?_, hmoves⟩
  simpa [stringToken, htext] using hon

theorem reads_urlRemnants : Reads urlRemnants c (Lexer.remnants c.text) := by
  generalize htext : c.text = text
  fun_induction Lexer.remnants text generalizing c with
  | case1 =>
    refine ⟨_, ?_, Cursor.moves_next htext⟩
    rw [urlRemnants_eq, remnantRound]
    simp [htext]
  | case2 rest =>
    refine ⟨_, ?_, Cursor.moves_next htext⟩
    rw [urlRemnants_eq, remnantRound]
    simp [htext]
  | case3 d rest hclose hescape escaped =>
    rename_i ih
    obtain ⟨c', hescaped, hmoves⟩ := on_escapedCodePoint_next htext
    have hon : urlRemnants.on c = urlRemnants.on c' := by
      conv_lhs => rw [urlRemnants_eq, remnantRound]
      simp [htext, hclose, on_isValidEscape_next, hescape, hescaped]
    exact .of_moves hon hmoves (ih hmoves.text)
  | case4 d rest hclose hescape ih =>
    have hnext := Cursor.moves_next htext
    have hon : urlRemnants.on c = urlRemnants.on c.next := by
      conv_lhs => rw [urlRemnants_eq, remnantRound]
      simp [htext, hclose, on_isValidEscape_next, hescape]
    exact .of_moves hon hnext (ih hnext.text)

theorem forms_badUrlToken {start : Cursor} {text : List Char} {reports : List LexicalError}
    {p : Procedure Token} (heq : p.on start = badUrlToken.on c)
    (hmoves : start.Moves c text reports) :
    Forms p start ((Lexer.badUrl reports text).map fun value => .ok (Lexer.urlKind value)) := by
  obtain ⟨c', hon, hmoves'⟩ := reads_urlRemnants (c := c)
  rw [hmoves.text] at hmoves'
  refine ⟨c', ?_, hmoves.trans hmoves'⟩
  rw [heq, badUrlToken]
  simp [hon, Lexer.badUrl, Lexer.urlKind]

theorem printable_backslash : isNonPrintable '\\' = false := by decide

theorem forms_urlRest (front : List Char) :
    Forms (urlRest front) c
      ((Lexer.unquotedUrl c.text).map fun value => .ok (Lexer.urlKind (value.map (front ++ ·)))) := by
  generalize htext : c.text = text
  fun_induction Lexer.unquotedUrl text generalizing c front with
  | case1 =>
    have hnext := Cursor.moves_next htext
    refine ⟨_, ?_, hnext.trans (Cursor.moves_report hnext.text .unterminatedUrl)⟩
    rw [urlRest_eq, urlRound]
    simp [htext, Lexer.urlKind]
  | case2 rest =>
    refine ⟨_, ?_, Cursor.moves_next htext⟩
    rw [urlRest_eq, urlRound]
    simp [htext, Lexer.urlKind]
  | case3 d rest hclose hspace hrest =>
    obtain ⟨c', hon, hmoves⟩ := on_consumeWhile_next isWhitespace htext
    rw [hrest] at hmoves
    have hend := hmoves.trans (Cursor.moves_next hmoves.text)
    refine ⟨_, ?_, hend.trans (Cursor.moves_report hend.text .unterminatedUrl)⟩
    rw [urlRest_eq, urlRound]
    simp [htext, hclose, hspace, hon, hmoves.text, Lexer.urlKind]
  | case4 d rest hclose hspace others hrest =>
    obtain ⟨c', hon, hmoves⟩ := on_consumeWhile_next isWhitespace htext
    rw [hrest] at hmoves
    refine ⟨_, ?_, hmoves.trans (Cursor.moves_next hmoves.text)⟩
    rw [urlRest_eq, urlRound]
    simp [htext, hclose, hspace, hon, hmoves.text, Lexer.urlKind]
  | case5 d rest hclose hspace e others hrest hother =>
    obtain ⟨c', hon, hmoves⟩ := on_consumeWhile_next isWhitespace htext
    rw [hrest] at hmoves
    have hrun : (urlRest front).on c = badUrlToken.on c' := by
      apply on_run_of_stop
      simp [urlRound, htext, hclose, hspace, hon, hmoves.text, hother]
    have := forms_badUrlToken hrun hmoves
    simpa [Lexer.badUrl, Scanned.map, Scanned.after] using this
  | case6 d rest hclose hspace hbad =>
    have hnext := Cursor.moves_next htext
    have hrun : (urlRest front).on c = badUrlToken.on (c.next.report (.unexpectedInUrl d)) := by
      simp only [Bool.or_eq_true, decide_eq_true_eq] at hbad
      apply on_run_of_stop
      simp [urlRound, htext, hclose, hspace, hbad]
    have := forms_badUrlToken hrun (hnext.trans (Cursor.moves_report hnext.text _))
    simpa [Lexer.badUrl, Scanned.map, Scanned.after] using this
  | case7 rest escaped hclose hspace hbad hescape =>
    rename_i ih
    obtain ⟨c', hescaped, hmoves⟩ := on_escapedCodePoint_next htext
    have hon : (urlRest front).on c = (urlRest (front ++ [escaped.value])).on c' := by
      conv_lhs => rw [urlRest_eq, urlRound]
      simp [htext, hspace, printable_backslash, on_isValidEscape_next, hescape, hescaped, escaped]
    simpa [Scanned.map, Scanned.after, Function.comp_def, escaped] using
      Forms.of_moves hon hmoves (ih (front ++ [escaped.value]) hmoves.text)
  | case8 rest hclose hspace hbad hescape =>
    have hnext := Cursor.moves_next htext
    have hrun : (urlRest front).on c = badUrlToken.on (c.next.report .invalidEscapeInUrl) := by
      apply on_run_of_stop
      simp [urlRound, htext, hspace, printable_backslash, on_isValidEscape_next, hescape]
    have := forms_badUrlToken hrun (hnext.trans (Cursor.moves_report hnext.text _))
    simpa [Lexer.badUrl, Scanned.map, Scanned.after] using this
  | case9 d rest hclose hspace hbad hslash =>
    rename_i ih
    have hnext := Cursor.moves_next htext
    have hon : (urlRest front).on c = (urlRest (front ++ [d])).on c.next := by
      simp only [Bool.or_eq_true, decide_eq_true_eq] at hbad
      conv_lhs => rw [urlRest_eq, urlRound]
      simp [htext, hclose, hspace, hbad, hslash]
    simpa [Scanned.map, Scanned.after, Function.comp_def] using
      Forms.of_moves hon hnext (ih (front ++ [d]) hnext.text)

theorem forms_urlToken {text : List Char} (htext : c.text = text)
    (hspace : text.dropWhile isWhitespace = text) :
    Forms urlToken c ((Lexer.unquotedUrl text).map fun value => .ok (Lexer.urlKind value)) := by
  obtain ⟨c', hon, hmoves⟩ := reads_consumeWhile (c := c) isWhitespace
  rw [htext, hspace] at hmoves
  have hrest := forms_urlRest (c := c') []
  rw [hmoves.text] at hrest
  have hrun : urlToken.on c = (urlRest []).on c' := by simp [urlToken, hon]
  simpa [Scanned.map, Scanned.after] using Forms.of_moves hrun hmoves hrest

theorem forms_quotedUrlToken {quote : Char} {text : List Char} (htext : c.text = quote :: text) :
    Forms quotedUrlToken c
      ((Lexer.quotedUrl quote text).map fun value => .ok (Lexer.urlKind value)) := by
  obtain ⟨c', hstring, hcontent⟩ := forms_stringToken htext
  have hopen := (Cursor.moves_next htext).trans hcontent
  unfold Lexer.quotedUrl
  generalize Lexer.string quote text = content at *
  obtain ⟨value, rest, reports⟩ := content
  cases value with
  | none =>
    have hrun : quotedUrlToken.on c = badUrlToken.on (c'.report .inputAfterQuotedUrl) := by
      simp [quotedUrlToken, hstring, stringKind]
    exact forms_badUrlToken hrun (hopen.trans (Cursor.moves_report hopen.text _))
  | some value =>
    obtain ⟨c'', hspace, hmoves⟩ := reads_consumeWhile (c := c') isWhitespace
    rw [hopen.text] at hmoves
    have hafter : c.Moves c'' (rest.dropWhile isWhitespace) reports := by
      simpa [Scanned.map] using hopen.trans hmoves
    dsimp only
    cases hrest : rest.dropWhile isWhitespace with
    | nil =>
      rw [hrest] at hafter
      refine ⟨_, ?_, hafter.trans (Cursor.moves_report hafter.text .unterminatedUrl)⟩
      simp [quotedUrlToken, hstring, stringKind, hspace, hafter.text, Lexer.urlKind]
    | cons d others =>
      rw [hrest] at hafter
      by_cases hclose : d = ')'
      · have hend := hafter.trans (Cursor.moves_next hafter.text)
        rw [List.append_nil, List.tail_cons] at hend
        simp only [hclose, if_true]
        refine ⟨_, ?_, hend⟩
        simp [quotedUrlToken, hstring, stringKind, hspace, hafter.text, hclose, Lexer.urlKind]
      · have hrun : quotedUrlToken.on c = badUrlToken.on (c''.report .inputAfterQuotedUrl) := by
          simp [quotedUrlToken, hstring, stringKind, hspace, hafter.text, hclose]
        simp only [hclose, if_false]
        exact forms_badUrlToken hrun (hafter.trans (Cursor.moves_report hafter.text _))

end Procedure

end StyleValue
