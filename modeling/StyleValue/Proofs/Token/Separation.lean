import StyleValue.Proofs.Token.Piece

/-!
# Tokens with empty comments between them

Tokens written out one right after the other may be read as other tokens. With an empty comment
between them they are not: it continues no token, and is none itself. So any tokens of a text, in
their order, are read again when they are written out in that way.
-/

set_option autoImplicit false

namespace StyleValue

def emptyComment : List CodePoint := ['/', '*', '*', '/'].map fun c => ⟨c, [c]⟩

theorem lex_emptyComment (rangesAllowed : Bool) (cps : List CodePoint) :
    lex rangesAllowed (emptyComment ++ cps) = lex rangesAllowed cps := by
  have hcomments : Lexer.comments ((emptyComment ++ cps).map CodePoint.char) =
      Lexer.comments (cps.map CodePoint.char) := by
    rw [List.map_append]
    exact Lexer.comments_closed rfl
  apply lex_congr
  · rw [tokenPoints, hcomments]
    obtain ⟨cs, htext, -⟩ := Lexer.comments_skips (cps.map CodePoint.char)
    have hlength := congrArg List.length htext
    rw [List.length_map, List.length_append] at hlength
    exact lastCodePoints_after emptyComment (by omega)
  · rw [commentReports, hcomments, commentReports]

def separated (ps : List Piece) : List CodePoint := emptyComment.intercalate (ps.map Piece.points)

theorem separated_singleton (p : Piece) : separated [p] = p.points := by
  simp [separated, List.intercalate_singleton]

theorem separated_cons_cons (p q : Piece) (ps : List Piece) :
    separated (p :: q :: ps) = p.points ++ (emptyComment ++ separated (q :: ps)) := by
  simp [separated, List.intercalate_cons_cons]

theorem lex_separated {ps : List Piece} (h : Legible ps) :
    lex false (separated ps) = ⟨ps.map Piece.pull, [], none⟩ := by
  induction ps with
  | nil => exact lex_nil
  | cons p ps ih =>
    cases ps with
    | nil =>
      have hone : lex false (p.points ++ []) = (lex false []).cons p.pull :=
        lex_piece (h.each p (by simp)) Lexer.inert_nil
      rw [List.append_nil, lex_nil] at hone
      rw [separated_singleton, hone]
      rfl
    | cons q ps =>
      have hinert : Lexer.Inert ((emptyComment ++ separated (q :: ps)).map CodePoint.char) :=
        (Lexer.inert_cons '/' _).mpr (by decide)
      have hread := (List.pairwise_cons.mp h.before).1 q (by simp) _ hinert
      rw [separated_cons_cons, lex_piece hread hinert, lex_emptyComment,
        ih (h.sublist (List.sublist_cons_self p _))]
      rfl

/-- An empty comment may stand before and after any filtered code points. -/
theorem isFiltered_emptyComment {a b : List CodePoint} (ha : IsFiltered a) (hb : IsFiltered b) :
    IsFiltered (a ++ (emptyComment ++ b)) := by
  have hmark (c : Char) (hc : c = '/' ∨ c = '*') {cps : List CodePoint} (h : IsFiltered cps) :
      IsFiltered (⟨c, [c]⟩ :: cps) := by
    rcases hc with rfl | rfl
    · exact .cons_of_ne (.other '/' (by decide)) h (by decide)
    · exact .cons_of_ne (.other '*' (by decide)) h (by decide)
  have hcomment : IsFiltered (emptyComment ++ b) :=
    hmark '/' (.inl rfl) (hmark '*' (.inr rfl) (hmark '*' (.inr rfl) (hmark '/' (.inl rfl) hb)))
  induction a with
  | nil => exact hcomment
  | cons cp a ih =>
    refine .cons (ha.each cp (by simp)) (ih ha.tail) ?_
    intro next hnext
    cases a with
    | nil =>
      obtain rfl : (⟨'/', ['/']⟩ : CodePoint) = next := by simpa [emptyComment] using hnext
      intro hpair
      exact absurd hpair.2 (by decide)
    | cons d a =>
      obtain rfl : d = next := by simpa using hnext
      exact List.rel_of_isChain_cons_cons ha.chain

theorem isFiltered_separated {ps : List Piece} (h : ∀ p ∈ ps, IsFiltered p.points) :
    IsFiltered (separated ps) := by
  induction ps with
  | nil => exact .nil
  | cons p ps ih =>
    obtain ⟨hp, hps⟩ := List.forall_mem_cons.mp h
    cases ps with
    | nil => rwa [separated_singleton]
    | cons q ps =>
      rw [separated_cons_cons]
      exact isFiltered_emptyComment hp (ih hps)

theorem sources_separated (ps : List Piece) :
    CodePoint.sources (separated ps) =
      ("/**/".intercalate ((ps.map Piece.token).map Token.source)).toList := by
  induction ps with
  | nil => rfl
  | cons p ps ih =>
    cases ps with
    | nil => simp [separated_singleton, Piece.token]
    | cons q ps =>
      have hcomment : CodePoint.sources emptyComment = "/**/".toList := by decide
      have hsource : CodePoint.sources p.points = p.token.source.toList := by simp [Piece.token]
      rw [separated_cons_cons, CodePoint.sources_append, CodePoint.sources_append, ih, hcomment,
        hsource]
      simp [String.intercalate_cons_cons]

/-- Tokens of a text, any of them in their order, are read again from their sources with empty
comments between them, unless the text has broken strings or lone backslashes. -/
theorem lexChunks_separated (text : String)
    (h : ∀ t ∈ (lexChunks false [text]).tokens, t.kind ≠ .badString ∧ t.kind ≠ .delim '\\')
    (tokens : List Token) (hsub : tokens.Sublist (lexChunks false [text]).tokens) :
    (lexChunks false ["/**/".intercalate (tokens.map Token.source)]).tokens = tokens ∧
      (lexChunks false ["/**/".intercalate (tokens.map Token.source)]).fault = none := by
  obtain ⟨ps, htokens, hlegible, hpoints⟩ := exists_pieces (Filter.isFiltered_filter text) h
  rw [lexChunks, ← htokens] at hsub
  obtain ⟨qs, hqs, rfl⟩ := List.sublist_map_iff.mp hsub
  have hfiltered := isFiltered_separated fun p hp => hpoints p (hqs.subset hp)
  rw [lexChunks, Filter.filter_eq_run, ← sources_separated, Filter.run_sources hfiltered,
    lex_separated (hlegible.sublist hqs)]
  simp [TokenStream.tokens, Piece.pull]

/-- An identifier, an at-keyword and an unclosed string, without the number and the white space. -/
theorem separated_unclosed_string :
    (lexChunks false ["a 1e3px@b'c"]).tokens.map Token.source = ["a", " ", "1e3px", "@b", "'c"] ∧
    (lexChunks false ["a/**/@b/**/'c"]).tokens =
      [⟨.ident "a", "a"⟩, ⟨.atKeyword "b", "@b"⟩, ⟨.string "c", "'c"⟩] := by
  have hall : (lexChunks false ["a 1e3px@b'c"]).tokens.map Token.source =
      ["a", " ", "1e3px", "@b", "'c"] := by decide +kernel
  have h : ∀ t ∈ (lexChunks false ["a 1e3px@b'c"]).tokens,
      t.kind ≠ .badString ∧ t.kind ≠ .delim '\\' := by decide +kernel
  have hsub : [⟨.ident "a", "a"⟩, ⟨.atKeyword "b", "@b"⟩, ⟨.string "c", "'c"⟩].Sublist
      (lexChunks false ["a 1e3px@b'c"]).tokens := by decide +kernel
  exact ⟨hall, (lexChunks_separated "a 1e3px@b'c" h _ hsub).1⟩

end StyleValue
