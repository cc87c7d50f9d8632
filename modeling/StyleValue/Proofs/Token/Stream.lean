import StyleValue.Proofs.Token.Comment
import StyleValue.Proofs.Token.Start
import StyleValue.Token.Stream

/-!
# One token after the other

The equations of `lex`, one for each way its step can go, and the induction that follows them.
-/

set_option autoImplicit false

namespace StyleValue

theorem firstCodePoints_append_lastCodePoints (cps : List CodePoint) (text : List Char) :
    firstCodePoints cps text ++ lastCodePoints cps text = cps :=
  List.take_append_drop _ cps

theorem lastCodePoints_append (a b : List CodePoint) :
    lastCodePoints (a ++ b) (b.map CodePoint.char) = b := by
  simp [lastCodePoints]

theorem firstCodePoints_append (a b : List CodePoint) :
    firstCodePoints (a ++ b) (b.map CodePoint.char) = a := by
  simp [firstCodePoints]

theorem lastCodePoints_after (a : List CodePoint) {b : List CodePoint} {text : List Char}
    (h : text.length ≤ b.length) : lastCodePoints (a ++ b) text = lastCodePoints b text := by
  rw [lastCodePoints, List.length_append, Nat.add_sub_assoc h, List.drop_length_add_append]
  rfl

theorem firstCodePoints_after (a : List CodePoint) {b : List CodePoint} {text : List Char}
    (h : text.length ≤ b.length) : firstCodePoints (a ++ b) text = a ++ firstCodePoints b text := by
  rw [firstCodePoints, List.length_append, Nat.add_sub_assoc h, List.take_length_add_append]
  rfl

/-- Code points are cut where their characters are. -/
theorem codePoints_split {cps : List CodePoint} {front text : List Char}
    (h : cps.map CodePoint.char = front ++ text) :
    (firstCodePoints cps text).map CodePoint.char = front ∧
      (lastCodePoints cps text).map CodePoint.char = text := by
  have hlength : cps.length - text.length = front.length := by
    have := congrArg List.length h
    simp only [List.length_map, List.length_append] at this
    omega
  rw [firstCodePoints, lastCodePoints, hlength, List.map_take, List.map_drop, h]
  simp

def commentPoints (cps : List CodePoint) : List CodePoint :=
  firstCodePoints cps (Lexer.comments (cps.map CodePoint.char)).rest

def tokenPoints (cps : List CodePoint) : List CodePoint :=
  lastCodePoints cps (Lexer.comments (cps.map CodePoint.char)).rest

def commentReports (cps : List CodePoint) : List LexicalError :=
  (Lexer.comments (cps.map CodePoint.char)).reports

def scanPoints (rangesAllowed : Bool) (cp : CodePoint) (others : List CodePoint) :
    Scanned (Computed TokenKind) :=
  Lexer.token rangesAllowed cp.char (others.map CodePoint.char)

theorem commentPoints_append_tokenPoints (cps : List CodePoint) :
    commentPoints cps ++ tokenPoints cps = cps :=
  firstCodePoints_append_lastCodePoints _ _

theorem tokenPoints_suffix (cps : List CodePoint) : tokenPoints cps <:+ cps :=
  List.drop_suffix _ _

section Equations

variable {rangesAllowed : Bool} {cps others : List CodePoint} {cp : CodePoint}

theorem lex_end (h : tokenPoints cps = []) :
    lex rangesAllowed cps = ⟨[], commentReports cps, none⟩ := by
  rw [lex]
  split
  · rfl
  · rename_i hcons
    cases h.symm.trans hcons

theorem lex_fault {fault : Fault} (h : tokenPoints cps = cp :: others)
    (hv : (scanPoints rangesAllowed cp others).value = .error fault) :
    lex rangesAllowed cps =
      ⟨[], commentReports cps ++ (scanPoints rangesAllowed cp others).reports, some fault⟩ := by
  rw [lex]
  split
  · rename_i hnil
    cases h.symm.trans hnil
  · rename_i hcons
    obtain ⟨rfl, rfl⟩ := List.cons.inj (h.symm.trans hcons)
    simp only [scanPoints] at hv
    simp only [hv]
    rfl

theorem lex_token {kind : TokenKind} (h : tokenPoints cps = cp :: others)
    (hv : (scanPoints rangesAllowed cp others).value = .ok kind) :
    lex rangesAllowed cps =
      (lex rangesAllowed (lastCodePoints others (scanPoints rangesAllowed cp others).rest)).cons
        ⟨commentReports cps ++ (scanPoints rangesAllowed cp others).reports, kind,
          String.ofList (CodePoint.sources
            (cp :: firstCodePoints others (scanPoints rangesAllowed cp others).rest))⟩ := by
  rw [lex]
  split
  · rename_i hnil
    cases h.symm.trans hnil
  · rename_i hcons
    obtain ⟨rfl, rfl⟩ := List.cons.inj (h.symm.trans hcons)
    simp only [scanPoints] at hv
    simp only [hv]
    rfl

theorem lex_congr {a b : List CodePoint}
    (hpoints : tokenPoints a = tokenPoints b) (hreports : commentReports a = commentReports b) :
    lex rangesAllowed a = lex rangesAllowed b := by
  cases hb : tokenPoints b with
  | nil => rw [lex_end hb, lex_end (hpoints.trans hb), hreports]
  | cons cp others =>
    cases hv : (scanPoints rangesAllowed cp others).value with
    | error fault => rw [lex_fault hb hv, lex_fault (hpoints.trans hb) hv, hreports]
    | ok kind => rw [lex_token hb hv, lex_token (hpoints.trans hb) hv, hreports]

/-- A token that no comment stands before and that is read without an error. -/
theorem lex_first {front rest : List CodePoint} {kind : TokenKind} (hslash : cp.char ≠ '/')
    (h : scanPoints rangesAllowed cp (front ++ rest) = ⟨.ok kind, rest.map CodePoint.char, []⟩) :
    lex rangesAllowed (cp :: (front ++ rest)) = (lex rangesAllowed rest).cons
      ⟨[], kind, String.ofList (CodePoint.sources (cp :: front))⟩ := by
  have hcomments : Lexer.comments ((cp :: (front ++ rest)).map CodePoint.char) =
      ⟨(), (cp :: (front ++ rest)).map CodePoint.char, []⟩ :=
    Lexer.comments_other fun body hbody => hslash (List.cons.inj hbody).1
  have hpoints : tokenPoints (cp :: (front ++ rest)) = cp :: (front ++ rest) := by
    rw [tokenPoints, hcomments]
    exact lastCodePoints_append [] _
  have hreports : commentReports (cp :: (front ++ rest)) = [] := by rw [commentReports, hcomments]
  rw [lex_token hpoints (by rw [h]), h, hreports, lastCodePoints_append, firstCodePoints_append]
  rfl

theorem length_lastCodePoints_lt (h : tokenPoints cps = cp :: others) (text : List Char) :
    (lastCodePoints others text).length < cps.length := by
  have hlength := congrArg List.length (commentPoints_append_tokenPoints cps)
  simp only [h, List.length_append, List.length_cons] at hlength
  simp only [lastCodePoints, List.length_drop]
  omega

theorem lex_nil : lex rangesAllowed [] = ⟨[], [], none⟩ := by
  have hcomments : Lexer.comments [] = ⟨(), [], []⟩ := Lexer.comments_other (by simp)
  rw [lex_end (by simp [tokenPoints, lastCodePoints]), commentReports, List.map_nil, hcomments]

end Equations

/-- What holds at the end, at a fault, and before a token if it holds after it, holds of every
text. -/
theorem lex_induction (rangesAllowed : Bool) {motive : List CodePoint → Prop}
    (finish : ∀ cps, tokenPoints cps = [] → motive cps)
    (fault : ∀ cps cp others fault, tokenPoints cps = cp :: others →
      (scanPoints rangesAllowed cp others).value = .error fault → motive cps)
    (token : ∀ cps cp others kind, tokenPoints cps = cp :: others →
      (scanPoints rangesAllowed cp others).value = .ok kind →
      motive (lastCodePoints others (scanPoints rangesAllowed cp others).rest) → motive cps)
    (cps : List CodePoint) : motive cps := by
  induction hn : cps.length using Nat.strong_induction_on generalizing cps with
  | _ n ih =>
    cases h : tokenPoints cps with
    | nil => exact finish cps h
    | cons cp others =>
      cases hv : (scanPoints rangesAllowed cp others).value with
      | error f => exact fault cps cp others f h hv
      | ok kind =>
        exact token cps cp others kind h hv
          (ih _ (hn ▸ length_lastCodePoints_lt h _) _ rfl)

theorem fault_of_lex {rangesAllowed : Bool} {cps : List CodePoint} {fault : Fault}
    (h : (lex rangesAllowed cps).fault = some fault) : fault = .overflow := by
  induction cps using lex_induction rangesAllowed with
  | finish cps hnext =>
    rw [lex_end hnext] at h
    cases h
  | fault cps cp others other hnext hv =>
    rw [lex_fault hnext hv] at h
    cases h
    exact Lexer.token_fault hv
  | token cps cp others kind hnext hv ih =>
    rw [lex_token hnext hv] at h
    exact ih h

end StyleValue
