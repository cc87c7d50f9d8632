import StyleValue.Proofs.Token.Coverage
import StyleValue.Proofs.Token.Extension

/-!
# Tokens on both sides of a comma

A comma continues no token, and no token is left open by a text that is read without an error. So
what stands before a comma and what stands after it are read as if each stood alone.
-/

set_option autoImplicit false

namespace StyleValue

namespace Lexer

theorem afterComment?_append {text rest : List Char} (h : afterComment? text = some rest)
    (more : List Char) : afterComment? (text ++ more) = some (rest ++ more) := by
  fun_induction afterComment? text with
  | case1 => simp at h
  | case2 others =>
    obtain rfl := Option.some.inj h
    rfl
  | case3 c others hne ih =>
    cases others with
    | nil => simp [afterComment?] at h
    | cons d others =>
      rw [List.cons_append, List.cons_append, afterComment?]
      · exact ih h
      · intro rest hc hrest
        obtain ⟨rfl, -⟩ := List.cons.inj hrest
        exact hne others hc rfl

structure Dividing (text : List Char) : Prop where
  inert : Inert text
  slash : text.head? ≠ some '/'
  mark : text.head? ≠ some '?'

theorem comments_extend {y : List Char} (hy : Dividing y) (text : List Char)
    (h : (comments text).reports = []) :
    comments (text ++ y) = (comments text).extend y := by
  fun_induction comments text with
  | case1 body rest hafter ih =>
    rw [List.cons_append, List.cons_append, comments_closed (afterComment?_append hafter y)]
    exact ih h
  | case2 => simp at h
  | case3 text hopen =>
    apply comments_other
    intro body hbody
    cases text with
    | nil => exact hy.slash (congrArg List.head? hbody)
    | cons c text =>
      obtain ⟨rfl, hstar⟩ := List.cons.inj hbody
      cases text with
      | nil => exact hy.inert.head_ne (c := '*') (by decide) (congrArg List.head? hstar)
      | cons d text =>
        obtain ⟨rfl, -⟩ := List.cons.inj hstar
        exact hopen text rfl

theorem token_comma (rangesAllowed : Bool) (rest : List Char) :
    token rangesAllowed ',' rest = ⟨.ok .comma, rest, []⟩ := by
  cases rangesAllowed <;> cases rest <;> rfl

end Lexer

def TokenStream.followedBy (s t : TokenStream) : TokenStream :=
  match s.fault with
  | some _ => s
  | none => ⟨s.pulls ++ t.pulls, t.reports, t.fault⟩

theorem TokenStream.followedBy_cons (p : Pull) (s t : TokenStream) :
    (s.cons p).followedBy t = (s.followedBy t).cons p := by
  rcases s with ⟨pulls, reports, fault⟩
  cases fault <;> rfl

theorem firstCodePoints_extend (others ys : List CodePoint) (rest : List Char) :
    firstCodePoints (others ++ ys) (rest ++ ys.map CodePoint.char) =
      firstCodePoints others rest := by
  have hlength : (others ++ ys).length - (rest ++ ys.map CodePoint.char).length =
      others.length - rest.length := by
    simp only [List.length_append, List.length_map]
    omega
  rw [firstCodePoints, hlength, List.take_append_of_le_length (Nat.sub_le _ _), firstCodePoints]

theorem lastCodePoints_extend (others ys : List CodePoint) (rest : List Char) :
    lastCodePoints (others ++ ys) (rest ++ ys.map CodePoint.char) =
      lastCodePoints others rest ++ ys := by
  have hlength : (others ++ ys).length - (rest ++ ys.map CodePoint.char).length =
      others.length - rest.length := by
    simp only [List.length_append, List.length_map]
    omega
  rw [lastCodePoints, hlength, List.drop_append_of_le_length (Nat.sub_le _ _), lastCodePoints]

section Append

variable {rangesAllowed : Bool} {ys : List CodePoint}
  (hys : Lexer.Dividing (ys.map CodePoint.char))
include hys

theorem comments_points {cps : List CodePoint} (h : commentReports cps = []) :
    tokenPoints (cps ++ ys) = tokenPoints cps ++ ys ∧ commentReports (cps ++ ys) = [] := by
  have hextended := Lexer.comments_extend hys (cps.map CodePoint.char) h
  rw [← List.map_append] at hextended
  constructor
  · rw [tokenPoints, hextended]
    exact lastCodePoints_extend cps ys _
  · rw [commentReports, hextended]
    exact h

theorem scanPoints_append {cp : CodePoint}
    {others : List CodePoint} (h : (scanPoints rangesAllowed cp others).reports = [])
    (hurl : (scanPoints rangesAllowed cp others).value ≠ .ok .badUrl) :
    scanPoints rangesAllowed cp (others ++ ys) =
      (scanPoints rangesAllowed cp others).extend (ys.map CodePoint.char) := by
  rw [scanPoints, List.map_append]
  exact Lexer.token_extend hys.inert hys.mark h hurl

theorem lex_append {cps : List CodePoint}
    (hreports : (lex rangesAllowed cps).allReports = [])
    (hurl : ∀ t ∈ (lex rangesAllowed cps).tokens, t.kind ≠ .badUrl) :
    lex rangesAllowed (cps ++ ys) =
      (lex rangesAllowed cps).followedBy (lex rangesAllowed ys) := by
  induction cps using lex_induction rangesAllowed with
  | finish cps hend =>
    rw [lex_end hend] at hreports ⊢
    obtain ⟨hpoints, hnone⟩ := comments_points hys hreports
    have hstartReports : commentReports [] = [] := by
      rw [commentReports, List.map_nil, Lexer.comments_other (by simp)]
    obtain ⟨hstart, hstartNone⟩ := comments_points hys hstartReports
    have hempty : tokenPoints [] = [] := by simp [tokenPoints, lastCodePoints]
    rw [hend] at hpoints
    rw [hempty] at hstart
    exact lex_congr (hpoints.trans hstart.symm) (hnone.trans hstartNone.symm)
  | fault cps cp others fault hnext hv =>
    have hcomments := commentReports_eq_nil hnext
    rw [lex_fault hnext hv, TokenStream.allReports, hcomments] at hreports
    obtain ⟨hpoints, hnone⟩ := comments_points hys hcomments
    rw [hnext, List.cons_append] at hpoints
    have hscan := scanPoints_append hys hreports (by simp [hv])
    rw [lex_fault hnext hv, lex_fault hpoints (by rw [hscan]; exact hv), hnone, hscan, hcomments]
    rfl
  | token cps cp others kind hnext hv ih =>
    have hcomments := commentReports_eq_nil hnext
    rw [lex_token hnext hv] at hreports hurl
    obtain ⟨hkind, hothers⟩ := List.forall_mem_cons.mp hurl
    have hsplit : (scanPoints rangesAllowed cp others).reports = [] ∧
        (lex rangesAllowed
          (lastCodePoints others (scanPoints rangesAllowed cp others).rest)).allReports = [] := by
      simpa [TokenStream.allReports, TokenStream.cons, hcomments, and_assoc] using hreports
    obtain ⟨hpoints, hnone⟩ := comments_points hys hcomments
    rw [hnext, List.cons_append] at hpoints
    have hscan := scanPoints_append hys hsplit.1 (by rw [hv]; simpa using hkind)
    have hrest : (scanPoints rangesAllowed cp (others ++ ys)).rest =
        (scanPoints rangesAllowed cp others).rest ++ ys.map CodePoint.char := by rw [hscan]; rfl
    rw [lex_token hnext hv, lex_token hpoints (by rw [hscan]; exact hv), hrest,
      lastCodePoints_extend, firstCodePoints_extend, ih hsplit.2 hothers,
      TokenStream.followedBy_cons, hnone, hcomments, hscan]
    rfl

end Append

def comma : CodePoint := ⟨',', [',']⟩

theorem dividing_comma (ys : List CodePoint) :
    Lexer.Dividing ((comma :: ys).map CodePoint.char) :=
  ⟨(Lexer.inert_cons ',' _).mpr (by decide), by simp [comma], by simp [comma]⟩

theorem lex_comma (rangesAllowed : Bool) (ys : List CodePoint) :
    lex rangesAllowed (comma :: ys) =
      (lex rangesAllowed ys).cons ⟨[], ⟨.comma, ","⟩⟩ := by
  have hscan : scanPoints rangesAllowed comma ([] ++ ys) =
      ⟨.ok .comma, ys.map CodePoint.char, []⟩ := Lexer.token_comma rangesAllowed _
  exact lex_first (by decide) hscan

theorem lexChunks_cut (rangesAllowed : Bool) (a b : String)
    (hreports : (lexChunks rangesAllowed [a]).allReports = [])
    (hurl : ∀ t ∈ (lexChunks rangesAllowed [a]).tokens, t.kind ≠ .badUrl) :
    lexChunks rangesAllowed [a ++ "," ++ b] = (lexChunks rangesAllowed [a]).followedBy
      ((lexChunks rangesAllowed [b]).cons ⟨[], ⟨.comma, ","⟩⟩) := by
  have hfilter : filterChunks [a ++ "," ++ b] =
      filterChunks [a] ++ comma :: filterChunks [b] := by
    have hcomma : Filter.replace ',' = ',' := by decide
    simp only [Filter.filter_eq_run, String.toList_append, List.append_assoc]
    rw [show ",".toList = [','] from rfl, List.singleton_append,
      Filter.run_append_other _ _ (by decide) (by decide), hcomma]
    rfl
  rw [lexChunks, hfilter, lex_append (dividing_comma _) hreports hurl, lex_comma]
  rfl

/-- A text that is read without an error and without a broken URL, before a comma: the tokens are
those of the text, the comma and those of what follows, and only the errors of what follows are
reported. A fault in the text stays the only outcome. -/
theorem lexChunks_comma (rangesAllowed : Bool) (a b : String)
    (hreports : (lexChunks rangesAllowed [a]).allReports = [])
    (hurl : ∀ t ∈ (lexChunks rangesAllowed [a]).tokens, t.kind ≠ .badUrl) :
    ((lexChunks rangesAllowed [a]).fault = none →
      (lexChunks rangesAllowed [a ++ "," ++ b]).tokens =
        (lexChunks rangesAllowed [a]).tokens ++ ⟨.comma, ","⟩ ::
          (lexChunks rangesAllowed [b]).tokens ∧
      (lexChunks rangesAllowed [a ++ "," ++ b]).allReports =
        (lexChunks rangesAllowed [b]).allReports ∧
      (lexChunks rangesAllowed [a ++ "," ++ b]).fault = (lexChunks rangesAllowed [b]).fault) ∧
    ((lexChunks rangesAllowed [a]).fault ≠ none →
      lexChunks rangesAllowed [a ++ "," ++ b] = lexChunks rangesAllowed [a]) := by
  rw [lexChunks_cut rangesAllowed a b hreports hurl]
  have hpulls := (List.append_eq_nil_iff.mp hreports).1
  constructor
  · intro hfault
    rw [TokenStream.followedBy, hfault]
    refine ⟨?_, ?_, rfl⟩
    · simp [TokenStream.tokens, TokenStream.cons]
    · simp [TokenStream.allReports, TokenStream.cons, hpulls]
  · intro hfault
    obtain ⟨fault, hsome⟩ := Option.ne_none_iff_exists'.mp hfault
    rw [TokenStream.followedBy, hsome]

/-- A number whose unit ends with an escape, a range, a comment and a lone carriage return before
the comma; a string that is never closed after it. -/
theorem comma_before_unclosed_string :
    (lexChunks true ["1\\41/**/U+4?\r"]).tokens.map Token.source = ["1\\41", "U+4?", "\r"] ∧
    (lexChunks true ["1\\41/**/U+4?\r" ++ "," ++ "\n'x"]).tokens.map Token.source =
      ["1\\41", "U+4?", "\r", ",", "\n", "'x"] ∧
    (lexChunks true ["1\\41/**/U+4?\r" ++ "," ++ "\n'x"]).allReports = [.unterminatedString] := by
  have ha : (lexChunks true ["1\\41/**/U+4?\r"]).tokens.map Token.source =
      ["1\\41", "U+4?", "\r"] := by decide +kernel
  have hb : (lexChunks true ["\n'x"]).tokens.map Token.source = ["\n", "'x"] := by decide +kernel
  obtain ⟨htokens, herrors, -⟩ := (lexChunks_comma true "1\\41/**/U+4?\r" "\n'x"
    (by decide +kernel) (by decide +kernel)).1 (by decide +kernel)
  refine ⟨ha, ?_, ?_⟩
  · rw [htokens, List.map_append, List.map_cons, ha, hb]
    rfl
  · rw [herrors]
    decide +kernel

end StyleValue
