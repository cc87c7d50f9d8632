import StyleValue.Proofs.Token.Start
import StyleValue.Proofs.Token.Stream

/-!
# Tokens and comments make up the text

Every character of a text belongs to one token or to one comment. The sources of the tokens and the
comments between them, put together in order, are the text that was filtered.
-/

set_option autoImplicit false

namespace StyleValue

namespace Lexer

theorem escape_no_comment (text : List Char) :
    .unterminatedComment ∉ (escape text).reports := by
  unfold escape
  cases text with
  | nil => simp
  | cons c rest => by_cases h : isHexDigit c <;> simp [h]

theorem name_no_comment (text : List Char) : .unterminatedComment ∉ (name text).reports := by
  fun_induction name text with
  | case1 => simp
  | case2 c rest hc ih => exact ih
  | case3 c rest hc he escaped ih => simpa using ⟨escape_no_comment rest, ih⟩
  | case4 => simp

theorem string_no_comment (quote : Char) (text : List Char) :
    .unterminatedComment ∉ (string quote text).reports := by
  fun_induction string quote text with
  | case1 => simp
  | case2 => simp
  | case3 => simp
  | case4 => simp
  | case5 _ _ _ _ _ ih => exact ih
  | case6 _ _ _ _ _ escaped ih => simpa using ⟨escape_no_comment _, ih⟩
  | case7 _ _ _ _ _ ih => exact ih

theorem remnants_no_comment (text : List Char) :
    .unterminatedComment ∉ (remnants text).reports := by
  fun_induction remnants text with
  | case1 => simp
  | case2 => simp
  | case3 _ rest _ _ escaped ih => simpa using ⟨escape_no_comment rest, ih⟩
  | case4 _ _ _ _ ih => exact ih

theorem badUrl_no_comment (reports : List LexicalError) (h : .unterminatedComment ∉ reports)
    (text : List Char) : .unterminatedComment ∉ (badUrl reports text).reports := by
  simpa [badUrl] using ⟨h, remnants_no_comment text⟩

theorem unquotedUrl_no_comment (text : List Char) :
    .unterminatedComment ∉ (unquotedUrl text).reports := by
  fun_induction unquotedUrl text with
  | case1 => simp
  | case2 => simp
  | case3 => simp
  | case4 => simp
  | case5 => exact badUrl_no_comment _ (by simp) _
  | case6 => exact badUrl_no_comment _ (by simp) _
  | case7 rest _ _ _ _ escaped ih => simpa using ⟨escape_no_comment rest, ih⟩
  | case8 => exact badUrl_no_comment _ (by simp) _
  | case9 _ _ _ _ _ _ ih => exact ih

theorem url_no_comment (text : List Char) : .unterminatedComment ∉ (url text).reports := by
  have quoted (quote : Char) (text : List Char) :
      .unterminatedComment ∉ (quotedUrl quote text).reports := by
    have h := string_no_comment quote text
    unfold quotedUrl
    dsimp only
    split
    · simpa using h
    · split
      · exact h
      · exact badUrl_no_comment _ (by simpa using h) _
    · exact badUrl_no_comment _ (by simpa using h) _
  unfold url
  split
  · split
    · exact quoted _ _
    · exact unquotedUrl_no_comment _
  · exact unquotedUrl_no_comment _

theorem identLike_no_comment (text : List Char) :
    .unterminatedComment ∉ (identLike text).reports := by
  have h := name_no_comment text
  unfold identLike
  dsimp only
  split
  · split
    · simpa using ⟨h, url_no_comment _⟩
    · simpa using h
  · simpa using h

theorem numeric_no_comment (text : List Char) :
    .unterminatedComment ∉ (numeric text).reports := by
  unfold numeric
  dsimp only
  split
  · simp
  · split
    · exact name_no_comment _
    · split <;> simp

theorem unicodeRange_no_comment (text : List Char) :
    .unterminatedComment ∉ (unicodeRange text).reports := by
  unfold unicodeRange
  dsimp only
  split
  · split
    · split <;> simp
    · simp
  · simp

theorem token_no_comment (rangesAllowed : Bool) (c : Char) (rest : List Char) :
    .unterminatedComment ∉ (token rangesAllowed c rest).reports := by
  rw [token_eq_scan]
  cases Start.of rangesAllowed c rest with
  | whitespace => simp [Start.scan]
  | quote => exact string_no_comment c rest
  | hash => exact name_no_comment rest
  | numeral => exact numeric_no_comment (c :: rest)
  | commentClose => simp [Start.scan]
  | commentOpen => simp [Start.scan]
  | atKeyword => exact name_no_comment rest
  | range => exact unicodeRange_no_comment (rest.drop 1)
  | name => exact identLike_no_comment (c :: rest)
  | backslash => simp [Start.scan]
  | pair kind => simp [Start.scan]
  | lone kind => simp [Start.scan]

end Lexer

theorem commentPoints_texts {cps : List CodePoint} (h : IsFiltered cps) :
    ∃ cs : List Comment, CodePoint.sources (commentPoints cps) = Comment.texts cs ∧
      (∀ c ∈ cs.dropLast, c.isClosed) ∧
      ((∃ c ∈ cs, c.isClosed = false) ↔ .unterminatedComment ∈ commentReports cps) := by
  obtain ⟨cs, htext, hclosed, hreport⟩ := Lexer.comments_skips (cps.map CodePoint.char)
  have hfront : IsFiltered (commentPoints cps) :=
    h.of_infix (List.take_prefix _ cps).isInfix
  obtain ⟨ds, hds, hall⟩ :=
    Comment.exists_texts_eq_sources hfront cs (codePoints_split htext).1
  refine ⟨ds, hds, ?_, ?_⟩
  · have hmap : ∀ b ∈ (ds.map Comment.isClosed).dropLast, b = true := by
      rw [hall, ← List.map_dropLast]
      exact List.forall_mem_map.mpr hclosed
    rw [← List.map_dropLast] at hmap
    exact List.forall_mem_map.mp hmap
  · have hmem : (∃ c ∈ ds, c.isClosed = false) ↔ false ∈ ds.map Comment.isClosed := by simp
    rw [hmem, hall, commentReports, ← hreport]
    simp

theorem commentReports_eq_nil {cps others : List CodePoint} {cp : CodePoint}
    (h : tokenPoints cps = cp :: others) : commentReports cps = [] := by
  by_contra hreport
  rw [tokenPoints, Lexer.comments_rest_of_report _ hreport] at h
  simp [lastCodePoints] at h

def assembled (pieces : List (List Comment × Token)) (trailing : List Comment) : List Char :=
  pieces.flatMap (fun piece => Comment.texts piece.1 ++ piece.2.source.toList) ++
    Comment.texts trailing

theorem source_ne_nil {cp : CodePoint} (h : cp.IsFiltered) : cp.source ≠ [] := by
  cases h <;> simp

/-- One step: the comments before a token, the token, and what the rest of the text is made of. -/
theorem sources_token {cps others : List CodePoint} {cp : CodePoint}
    (h : tokenPoints cps = cp :: others) (rest : List Char) :
    CodePoint.sources cps = CodePoint.sources (commentPoints cps) ++
      (CodePoint.sources (cp :: firstCodePoints others rest) ++
        CodePoint.sources (lastCodePoints others rest)) := by
  rw [← CodePoint.sources_append, ← CodePoint.sources_append, List.cons_append,
    firstCodePoints_append_lastCodePoints, ← h, commentPoints_append_tokenPoints]

theorem lex_covers {rangesAllowed : Bool} {cps : List CodePoint} (hf : IsFiltered cps)
    (h : (lex rangesAllowed cps).fault = none) :
    ∃ (pieces : List (List Comment × Token)) (trailing : List Comment),
      pieces.map Prod.snd = (lex rangesAllowed cps).tokens ∧
      assembled pieces trailing = CodePoint.sources cps ∧
      (∀ piece ∈ pieces, piece.2.source ≠ "" ∧ ∀ c ∈ piece.1, c.isClosed) ∧
      (∀ c ∈ trailing.dropLast, c.isClosed) ∧
      ((∃ c ∈ trailing, c.isClosed = false) ↔
        .unterminatedComment ∈ (lex rangesAllowed cps).allReports) := by
  induction cps using lex_induction rangesAllowed with
  | finish cps hend =>
    obtain ⟨cs, htext, hclosed, hreport⟩ := commentPoints_texts hf
    have hall := commentPoints_append_tokenPoints cps
    rw [hend, List.append_nil] at hall
    refine ⟨[], cs, ?_, ?_, by simp, hclosed, ?_⟩
    · simp [lex_end hend, TokenStream.tokens]
    · simp [assembled, ← htext, hall]
    · simpa [lex_end hend, TokenStream.allReports] using hreport
  | fault cps cp others fault hnext hv => simp [lex_fault hnext hv] at h
  | token cps cp others kind hnext hv ih =>
    have hpart := hf.of_infix (a := cp :: others) ⟨commentPoints cps, [], by
      rw [List.append_nil, ← hnext, commentPoints_append_tokenPoints]⟩
    obtain ⟨gap, hgap, -, hreport⟩ := commentPoints_texts hf
    have hnone := commentReports_eq_nil hnext
    have hlast : IsFiltered (lastCodePoints others (scanPoints rangesAllowed cp others).rest) :=
      hpart.tail.of_infix (List.drop_suffix _ _).isInfix
    rw [lex_token hnext hv] at h ⊢
    obtain ⟨pieces, trailing, htokens, htext, hpieces, hclosed, hunclosed⟩ := ih hlast h
    refine ⟨(gap, ⟨kind, String.ofList (CodePoint.sources
      (cp :: firstCodePoints others (scanPoints rangesAllowed cp others).rest))⟩) :: pieces,
      trailing, ?_, ?_, ?_, hclosed, ?_⟩
    · simpa [TokenStream.tokens, TokenStream.cons] using htokens
    · rw [sources_token hnext (scanPoints rangesAllowed cp others).rest, hgap, ← htext]
      simp [assembled]
    · intro piece hpiece
      rcases List.mem_cons.mp hpiece with rfl | hpiece
      · constructor
        · have hne := source_ne_nil (hpart.each cp (by simp))
          intro hempty
          simp [CodePoint.sources, hne] at hempty
        · intro c hc
          by_contra hopen
          have := hreport.mp ⟨c, hc, by simpa using hopen⟩
          simp [hnone] at this
      · exact hpieces piece hpiece
    · have htoken := Lexer.token_no_comment rangesAllowed cp.char (others.map CodePoint.char)
      rw [hunclosed]
      simp [TokenStream.allReports, TokenStream.cons, hnone, scanPoints, htoken]

/-- A text is its tokens with closed comments before each, and comments at its end. Only the last
of those may lack its closing mark, and it does if and only if that is reported. -/
theorem lexChunks_covers_text (rangesAllowed : Bool) (text : String)
    (h : (lexChunks rangesAllowed [text]).fault = none) :
    ∃ (pieces : List (List Comment × Token)) (trailing : List Comment),
      pieces.map Prod.snd = (lexChunks rangesAllowed [text]).tokens ∧
      assembled pieces trailing = text.toList ∧
      (∀ piece ∈ pieces, piece.2.source ≠ "" ∧ ∀ c ∈ piece.1, c.isClosed) ∧
      (∀ c ∈ trailing.dropLast, c.isClosed) ∧
      ((∃ c ∈ trailing, c.isClosed = false) ↔
        .unterminatedComment ∈ (lexChunks rangesAllowed [text]).allReports) := by
  have hcover := lex_covers (Filter.isFiltered_filter text) h
  rwa [Filter.sources_filter] at hcover

/-- A comment between tokens, a line end of two characters, and a comment that is never closed. -/
theorem covers_unclosed_comment :
    (lexChunks true ["a/*x*/\r\n'b'/*y"]).fault = none ∧
    ∃ (pieces : List (List Comment × Token)) (trailing : List Comment),
      pieces.map Prod.snd = (lexChunks true ["a/*x*/\r\n'b'/*y"]).tokens ∧
      assembled pieces trailing = "a/*x*/\r\n'b'/*y".toList ∧
      ∃ c ∈ trailing, c.isClosed = false := by
  have hfault : (lexChunks true ["a/*x*/\r\n'b'/*y"]).fault = none := by decide +kernel
  refine ⟨hfault, ?_⟩
  obtain ⟨pieces, trailing, htokens, htext, -, -, hreport⟩ := lexChunks_covers_text true _ hfault
  exact ⟨pieces, trailing, htokens, htext, hreport.mpr (by decide +kernel)⟩

end StyleValue
