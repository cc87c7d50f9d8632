import StyleValue.Proofs.Token.Boundary.Token
import StyleValue.Proofs.Token.Stream

/-!
# Pieces of a text

A piece is a part of a text that is read as one token. Reading goes on after it as if the rest
stood alone. The pieces that a text is cut into are read as the same tokens elsewhere, too: at the
end of a text, and before inert text if something followed them in their own.
-/

set_option autoImplicit false

namespace StyleValue

structure Piece where
  first : CodePoint
  others : List CodePoint
  kind : TokenKind
  reports : List LexicalError

namespace Piece

def points (p : Piece) : List CodePoint := p.first :: p.others

def token (p : Piece) : Token := ⟨p.kind, String.ofList (CodePoint.sources p.points)⟩

def pull (p : Piece) : Pull := ⟨p.reports, p.token⟩

def ReadsBefore (p : Piece) (text : List Char) : Prop :=
  Lexer.token false p.first.char (p.others.map CodePoint.char ++ text) =
    ⟨.ok p.kind, text, p.reports⟩

end Piece

theorem Lexer.token_slash (rest : List Char) :
    Lexer.token false '/' rest = ⟨.ok (.delim '/'), rest, []⟩ := by
  have hchosen : Start.Chosen '/' rest (.lone (.delim '/')) := by
    refine .lone (by decide) (by decide) ?_ (by simp) (by simp) ?_ ?_
    · simp [not_starts (c := '/') (by decide) (by decide) (by decide)]
    · simp [not_startsName (c := '/') (by decide) (by decide)]
    · cases hpair : rest.head?.bind (pair? '/') with
      | none => rfl
      | some kind => exact absurd (pair_first hpair) (by decide)
  rw [hchosen.token_eq]
  rfl

/-- No piece that is read before inert text starts a comment there. -/
theorem Piece.ReadsBefore.not_comment {p : Piece} {text : List Char} (h : p.ReadsBefore text)
    (hinert : Lexer.Inert text) (body : List Char) :
    p.first.char :: (p.others.map CodePoint.char ++ text) ≠ '/' :: '*' :: body := by
  intro hopen
  obtain ⟨hslash, hstar⟩ := List.cons.inj hopen
  rw [ReadsBefore, hslash, Lexer.token_slash] at h
  have hrest : p.others.map CodePoint.char ++ text = text := congrArg Scanned.rest h
  rw [hrest] at hstar
  exact absurd (hinert '*' (by rw [hstar]; rfl)) (by decide)

/-- One step: a piece before inert text is one token. -/
theorem lex_piece {p : Piece} {cps : List CodePoint}
    (h : p.ReadsBefore (cps.map CodePoint.char))
    (hinert : Lexer.Inert (cps.map CodePoint.char)) :
    lex false (p.points ++ cps) = (lex false cps).cons p.pull := by
  have hcomments : Lexer.comments ((p.points ++ cps).map CodePoint.char) =
      ⟨(), (p.points ++ cps).map CodePoint.char, []⟩ := by
    apply Lexer.comments_other
    intro body
    rw [Piece.points, List.cons_append, List.map_cons, List.map_append]
    exact h.not_comment hinert body
  have hpoints : tokenPoints (p.points ++ cps) = p.first :: (p.others ++ cps) := by
    rw [tokenPoints, hcomments]
    exact lastCodePoints_append [] _
  have hreports : commentReports (p.points ++ cps) = [] := by
    rw [commentReports, hcomments]
  have hscan : scanPoints false p.first (p.others ++ cps) =
      ⟨.ok p.kind, cps.map CodePoint.char, p.reports⟩ := by
    rw [scanPoints, List.map_append]
    exact h
  rw [lex_token hpoints (by rw [hscan]), hscan, hreports, lastCodePoints_append,
    firstCodePoints_append]
  rfl

structure Legible (ps : List Piece) : Prop where
  each : ∀ p ∈ ps, p.ReadsBefore []
  before : ps.Pairwise fun p _ => ∀ text, Lexer.Inert text → p.ReadsBefore text

theorem Legible.sublist {ps qs : List Piece} (h : Legible ps) (hsub : qs.Sublist ps) : Legible qs :=
  ⟨fun p hp => h.each p (hsub.subset hp), h.before.sublist hsub⟩

def Piece.scanned (cp : CodePoint) (others : List CodePoint) (kind : TokenKind) : Piece :=
  ⟨cp, firstCodePoints others (scanPoints false cp others).rest, kind,
    (scanPoints false cp others).reports⟩

section Scanned

variable {cp : CodePoint} {others : List CodePoint} {kind : TokenKind}

theorem scanned_readsBefore (hv : (scanPoints false cp others).value = .ok kind)
    (hstring : kind ≠ .badString) (hslash : kind ≠ .delim '\\')
    (hrest : (scanPoints false cp others).rest ≠ []) (text : List Char)
    (hinert : Lexer.Inert text) : (Piece.scanned cp others kind).ReadsBefore text := by
  obtain ⟨front, hsplit, hstays⟩ :=
    Lexer.token_boundary hv hstring hslash fun hnil => absurd hnil hrest
  have hstays := hstays text hinert
  rw [← (codePoints_split hsplit).1] at hstays
  unfold scanPoints at hv
  rw [hv] at hstays
  exact hstays

theorem scanned_readsBefore_nil (hv : (scanPoints false cp others).value = .ok kind)
    (hstring : kind ≠ .badString) (hslash : kind ≠ .delim '\\') :
    (Piece.scanned cp others kind).ReadsBefore [] := by
  by_cases hrest : (scanPoints false cp others).rest = []
  · -- The token takes all of the text.
    have hscan : scanPoints false cp others =
        ⟨.ok kind, [], (scanPoints false cp others).reports⟩ := by
      rw [← hv, ← hrest]
    have hall : firstCodePoints others [] = others := by simp [firstCodePoints]
    rw [Piece.ReadsBefore, Piece.scanned, hrest, hall, List.append_nil]
    exact hscan
  · exact scanned_readsBefore hv hstring hslash hrest [] Lexer.inert_nil

end Scanned

/-- A text without broken strings and lone backslashes is cut into legible pieces. -/
theorem exists_pieces {cps : List CodePoint} (hf : IsFiltered cps)
    (h : ∀ t ∈ (lex false cps).tokens, t.kind ≠ .badString ∧ t.kind ≠ .delim '\\') :
    ∃ ps : List Piece, ps.map Piece.token = (lex false cps).tokens ∧ Legible ps ∧
      ∀ p ∈ ps, IsFiltered p.points := by
  induction cps using lex_induction false with
  | finish cps hend =>
    exact ⟨[], by simp [lex_end hend, TokenStream.tokens], ⟨by simp, .nil⟩, by simp⟩
  | fault cps cp others fault hnext hv =>
    exact ⟨[], by simp [lex_fault hnext hv, TokenStream.tokens], ⟨by simp, .nil⟩, by simp⟩
  | token cps cp others kind hnext hv ih =>
    have hpart : IsFiltered (cp :: others) := by
      rw [← hnext]
      exact hf.of_infix (List.drop_suffix _ cps).isInfix
    rw [lex_token hnext hv] at h ⊢
    obtain ⟨⟨hstring, hslash⟩, hothers⟩ := List.forall_mem_cons.mp h
    obtain ⟨ps, htokens, hlegible, hpoints⟩ :=
      ih (hpart.tail.of_infix (List.drop_suffix _ others).isInfix) hothers
    refine ⟨.scanned cp others kind :: ps, ?_, ⟨?_, ?_⟩, ?_⟩
    · rw [List.map_cons, htokens]
      rfl
    · exact List.forall_mem_cons.mpr
        ⟨scanned_readsBefore_nil hv hstring hslash, hlegible.each⟩
    · refine List.pairwise_cons.mpr ⟨?_, hlegible.before⟩
      intro q hq
      -- Another piece follows, so the text does not end with this one.
      apply scanned_readsBefore hv hstring hslash
      intro hnil
      have hnone : ps = [] := by
        simpa [hnil, lastCodePoints, lex_nil, TokenStream.tokens] using htokens
      simp [hnone] at hq
    · refine List.forall_mem_cons.mpr ⟨?_, hpoints⟩
      exact hpart.of_infix (List.prefix_cons_inj cp |>.mpr (List.take_prefix _ others)).isInfix

end StyleValue
