import StyleValue.Proofs.Token.Boundary.Token
import StyleValue.Proofs.Token.Denotation
import StyleValue.Proofs.Token.Longest
import StyleValue.Proofs.Token.Stream

/-!
# The first token of a text

What comes after the comments at the start of a text decides which token is its first. A numeral at
its start is a number, a percentage or a dimension, and a name one of the tokens that names make.
The token takes the longest numeral or name that the text starts with.
-/

set_option autoImplicit false

namespace StyleValue

open Grammar

def AfterComments (cps rest : List CodePoint) : Prop :=
  ∃ (front : List CodePoint) (cs : List Comment), cps = front ++ rest ∧
    front.map CodePoint.char = Comment.texts cs ∧ (∀ c ∈ cs.dropLast, c.isClosed) ∧
    ((∃ c ∈ cs, c.isClosed = false) → rest = []) ∧ ¬ ['/', '*'] <+: rest.map CodePoint.char

namespace Lexer

theorem afterComment?_of_endless {body : List Char} (h : ¬ ['*', '/'] <:+: body)
    (rest : List Char) : afterComment? (body ++ '*' :: '/' :: rest) = some rest := by
  induction body with
  | nil => rfl
  | cons c body ih =>
    rw [end_infix_cons, not_or] at h
    rw [List.cons_append, afterComment?.eq_3, ih h.2]
    rintro others rfl heq
    cases body with
    | nil => cases (List.cons.inj heq).1
    | cons d body =>
      obtain ⟨rfl, -⟩ := List.cons.inj heq
      exact h.1 ⟨rfl, rfl⟩

theorem afterComment?_none {body : List Char} (h : ¬ ['*', '/'] <:+: body) :
    afterComment? body = none := by
  cases hafter : afterComment? body with
  | none => rfl
  | some rest =>
    obtain ⟨content, rfl, -⟩ := afterComment?_eq_some hafter
    exact absurd ⟨content, rest, by simp⟩ h

theorem comments_rest_not_open (text : List Char) : ¬ ['/', '*'] <+: (comments text).rest := by
  fun_induction comments text with
  | case1 body rest hafter ih => exact ih
  | case2 => simp
  | case3 text hnone =>
    rintro ⟨body, rfl⟩
    exact hnone body rfl

theorem comments_texts {cs : List Comment} {text : List Char}
    (hclosed : ∀ c ∈ cs.dropLast, c.isClosed)
    (hopen : (∃ c ∈ cs, c.isClosed = false) → text = []) (hrest : ¬ ['/', '*'] <+: text) :
    (comments (Comment.texts cs ++ text)).rest = text := by
  induction cs with
  | nil =>
    rw [Comment.texts_nil, List.nil_append, comments_other]
    rintro body rfl
    exact hrest ⟨body, rfl⟩
  | cons c cs ih =>
    have htext : Comment.texts (c :: cs) ++ text = '/' :: '*' ::
        (c.body ++ ((if c.isClosed then ['*', '/'] else []) ++ (Comment.texts cs ++ text))) := by
      simp [Comment.text]
    rw [htext]
    cases hc : c.isClosed with
    | true =>
      simp only [if_true, List.cons_append, List.nil_append]
      rw [comments_closed (afterComment?_of_endless c.endless _)]
      refine ih (fun d hd => hclosed d ?_) ?_
      · cases cs with
        | nil => cases hd
        | cons e cs =>
          rw [List.dropLast_cons_cons]
          exact List.mem_cons_of_mem _ hd
      · rintro ⟨d, hd, h⟩
        exact hopen ⟨d, by simp [hd], h⟩
    | false =>
      -- A comment without an end is the last, and nothing follows it.
      obtain rfl : cs = [] := by
        by_contra hne
        obtain ⟨d, ds, rfl⟩ := List.exists_cons_of_ne_nil hne
        have := hclosed c (by simp)
        simp [hc] at this
      obtain rfl := hopen ⟨c, by simp, hc⟩
      rw [comments_endless (by simpa using afterComment?_none c.endless)]

end Lexer

theorem afterComments_iff {cps rest : List CodePoint} :
    AfterComments cps rest ↔ tokenPoints cps = rest := by
  constructor
  · rintro ⟨front, cs, rfl, hfront, hclosed, hopen, hrest⟩
    rw [tokenPoints, List.map_append, hfront, Lexer.comments_texts hclosed _ hrest,
      lastCodePoints_append]
    intro h
    rw [hopen h, List.map_nil]
  · rintro rfl
    obtain ⟨cs, htext, hclosed, hreport⟩ := Lexer.comments_skips (cps.map CodePoint.char)
    obtain ⟨hfront, hrest⟩ := codePoints_split htext
    refine ⟨commentPoints cps, cs, (commentPoints_append_tokenPoints cps).symm, hfront, hclosed, ?_,
      ?_⟩
    · intro hopen
      have hreports := List.ne_nil_of_mem (hreport.1 hopen)
      rw [tokenPoints, Lexer.comments_rest_of_report _ hreports]
      simp [lastCodePoints]
    · rw [tokenPoints, hrest]
      exact Lexer.comments_rest_not_open _

def firstKind? (rangesAllowed : Bool) (cps : List CodePoint) : Option TokenKind :=
  (lex rangesAllowed cps).tokens.head?.map Token.kind

def Begins (rangesAllowed : Bool) (cps : List CodePoint) (front : List Char) (kind : TokenKind) :
    Prop :=
  ∃ (first rest : List CodePoint) (reports : List LexicalError),
    AfterComments cps (first ++ rest) ∧ first.map CodePoint.char = front ∧
    lex rangesAllowed cps = (lex rangesAllowed rest).cons
      ⟨reports, kind, String.ofList (CodePoint.sources first)⟩

theorem Begins.firstKind? {rangesAllowed : Bool} {cps : List CodePoint} {front : List Char}
    {kind : TokenKind} (h : Begins rangesAllowed cps front kind) :
    firstKind? rangesAllowed cps = some kind := by
  obtain ⟨first, rest, reports, -, -, hlex⟩ := h
  rw [StyleValue.firstKind?, hlex]
  rfl

section First

variable {rangesAllowed : Bool} {cps others : List CodePoint} {cp : CodePoint}

theorem begins_of_scan {kind : TokenKind} {front back : List Char}
    (h : AfterComments cps (cp :: others))
    (hv : (scanPoints rangesAllowed cp others).value = .ok kind)
    (hsplit : cp.char :: others.map CodePoint.char = front ++ back) (hne : front ≠ [])
    (hback : back.length = (scanPoints rangesAllowed cp others).rest.length) :
    Begins rangesAllowed cps front kind := by
  have hlex := lex_token (afterComments_iff.1 h) hv
  have hcut := firstCodePoints_append_lastCodePoints others
    (scanPoints rangesAllowed cp others).rest
  refine
    ⟨cp :: firstCodePoints others (scanPoints rangesAllowed cp others).rest, _, _, ?_, ?_, hlex⟩
  · rwa [List.cons_append, hcut]
  · obtain ⟨c, front, rfl⟩ := List.exists_cons_of_ne_nil hne
    obtain ⟨rfl, hothers⟩ := List.cons.inj hsplit
    have hfirst := (codePoints_split hothers).1
    rw [List.map_cons, firstCodePoints, ← hback]
    exact congrArg (cp.char :: ·) hfirst

theorem firstKind?_of_scan {kind : TokenKind} (h : AfterComments cps (cp :: others)) :
    firstKind? rangesAllowed cps = some kind ↔
      (scanPoints rangesAllowed cp others).value = .ok kind := by
  have hpoints := afterComments_iff.1 h
  cases hv : (scanPoints rangesAllowed cp others).value with
  | error fault => simp [firstKind?, lex_fault hpoints hv, TokenStream.tokens]
  | ok other => simp [firstKind?, lex_token hpoints hv, TokenStream.cons, TokenStream.tokens]

theorem firstKind?_of_end (h : AfterComments cps []) : firstKind? rangesAllowed cps = none := by
  simp [firstKind?, lex_end (afterComments_iff.1 h), TokenStream.tokens]

end First

def TokenKind.number? : TokenKind → Option Number
  | .number x => some x
  | .percentage x => some x
  | .dimension x _ => some x
  | _ => none

inductive TokenKind.IsNamed : TokenKind → Prop
  | ident (name : String) : IsNamed (.ident name)
  | function (name : String) : IsNamed (.function name)
  | url (value : String) : IsNamed (.url value)
  | badUrl : IsNamed .badUrl

theorem TokenKind.IsNamed.number?_eq {kind : TokenKind} (h : kind.IsNamed) :
    kind.number? = none := by
  cases h <;> rfl

namespace Grammar

def StartsPlainIdent (text : List Char) : Prop :=
  (∃ c ∈ text.head?, isIdentStart c) ∨
    ∃ rest, text = '\\' :: rest ∧ ∀ c ∈ rest.head?, isNewline c = false

def StartsIdent (text : List Char) : Prop :=
  ['-', '-'] <+: text ∨ StartsPlainIdent text ∨
    ∃ rest, text = '-' :: rest ∧ StartsPlainIdent rest

end Grammar

namespace Lexer

theorem startsPlainIdent_iff {text : List Char} :
    StartsPlainIdent text ↔ text.head?.any isIdentStart ∨ startsEscape text := by
  rw [StartsPlainIdent, startsEscape_iff, Option.any_eq_true]
  rfl

theorem startsName_iff {text : List Char} : startsName text ↔ StartsIdent text := by
  simp only [StartsIdent, startsPlainIdent_iff]
  cases text with
  | nil => simp [startsName, startsEscape]
  | cons c rest =>
    by_cases hc : c = '-'
    · subst hc
      have hstart : isIdentStart '-' = false := by decide
      have hslash : startsEscape ('-' :: rest) = false := by simp [startsEscape_cons]
      cases rest with
      | nil => simp [startsName, startsEscape, hstart]
      | cons d rest =>
        simp [startsName, hstart, hslash, eq_comm (a := '-'), or_comm (b := d = '-'), or_assoc]
    · have hdashes : ¬ ['-', '-'] <+: c :: rest := by
        rintro ⟨others, heq⟩
        exact hc (List.cons.inj heq).1.symm
      rw [startsName_cons rest hc]
      simp [hc, hdashes]

theorem le_of_isIdentStart {c : Char} (h : isIdentStart c) : 'A'.toNat ≤ c.toNat := by
  have hA : 'A'.toNat = 0x41 := rfl
  simp only [isIdentStart, Ordinal.isIdentStart, Ordinal.isNonAsciiIdent, Ordinal.identRanges,
    List.any_cons, List.any_nil, Bool.or_eq_true, Bool.and_eq_true, decide_eq_true_eq, beq_iff_eq,
    Bool.or_false] at h
  omega

theorem isDigit_lt {c : Char} (h : isDigit c) : c.toNat < 'A'.toNat := by
  have hA : 'A'.toNat = 0x41 := rfl
  simp only [isDigit, Ordinal.isDigit, Bool.and_eq_true, decide_eq_true_eq] at h
  omega

theorem not_startsUnsigned {c : Char} (h : 'A'.toNat ≤ c.toNat ∨ c = '-') (rest : List Char) :
    Numeral.startsUnsigned (c :: rest) = false := by
  have hpoint : c ≠ '.' := by
    rintro rfl
    revert h
    decide
  rw [Numeral.startsUnsigned_other hpoint]
  by_contra hdigit
  have hlt := isDigit_lt (c := c) (by simpa using hdigit)
  rcases h with h | rfl
  · omega
  · exact hdigit rfl

theorem not_starts_of_le {c : Char} (h : 'A'.toNat ≤ c.toNat) (rest : List Char) :
    Numeral.starts (c :: rest) = false := by
  have hsign : c ≠ '+' ∧ c ≠ '-' := by
    constructor <;>
    · rintro rfl
      revert h
      decide
  rw [Numeral.starts_eq, Numeral.scanSign_other (by simp [hsign.1]) (by simp [hsign.2])]
  exact not_startsUnsigned (.inl h) rest

/-- A text does not start both with a name and with a numeral. -/
theorem not_starts_of_startsName {text : List Char} (h : startsName text) :
    Numeral.starts text = false := by
  cases text with
  | nil => cases h
  | cons c rest =>
    by_cases hc : c = '-'
    · subst hc
      change Numeral.startsUnsigned rest = false
      cases rest with
      | nil => rfl
      | cons d rest =>
        apply not_startsUnsigned
        simp only [startsName, List.head?_cons, Option.any_some, Bool.or_eq_true, beq_iff_eq,
          startsEscape_cons, Bool.and_eq_true] at h
        rcases h with (hstart | hdash) | hslash
        · exact .inl (le_of_isIdentStart hstart)
        · exact .inr hdash
        · rw [hslash.1]
          exact .inl (by decide)
    · apply not_starts_of_le
      rw [startsName_cons rest hc, startsEscape_cons, Bool.or_eq_true, Bool.and_eq_true,
        beq_iff_eq] at h
      rcases h with hstart | ⟨rfl, -⟩
      · exact le_of_isIdentStart hstart
      · decide

/-- Ranges are the only tokens that depend on being allowed. -/
theorem Start.of_eq_range_or (rangesAllowed : Bool) (c : Char) (rest : List Char) :
    ¬ Numeral.starts (c :: rest) ∧ of rangesAllowed c rest = .range ∨
      of rangesAllowed c rest = of false c rest := by
  by_cases hrange : rangesAllowed && (c = 'U' || c = 'u') && continuesRange rest
  · left
    have hletter : c = 'U' ∨ c = 'u' := by
      simp only [Bool.and_eq_true, Bool.or_eq_true, decide_eq_true_eq] at hrange
      exact hrange.1.2
    have hnot : Numeral.starts (c :: rest) = false :=
      not_starts_of_le (by rcases hletter with rfl | rfl <;> decide) rest
    refine ⟨by simp [hnot], ?_⟩
    unfold of
    rw [hnot, if_pos hrange]
    rcases hletter with rfl | rfl <;> rfl
  · right
    simp [of, hrange]

theorem Start.of_numeral {c : Char} {rest : List Char} (h : Numeral.starts (c :: rest))
    (rangesAllowed : Bool) : of rangesAllowed c rest = .numeral := by
  rcases of_eq_range_or rangesAllowed c rest with ⟨hnot, -⟩ | heq
  · exact absurd h hnot
  · rw [heq]
    exact (Chosen.numeral h).of_eq

section Kind

variable {c : Char} {rest : List Char} {kind : TokenKind}

theorem identLike_isNamed (text : List Char) : (identLike text).value.IsNamed := by
  by_cases hparen : (name text).rest.head? = some '('
  · obtain ⟨rest, hrest⟩ := List.head?_eq_some_iff.mp hparen
    rw [identLike_function (by rw [← hrest])]
    split
    · rw [Scanned.value_after, Scanned.value_map]
      cases (url rest).value with
      | none => exact .badUrl
      | some value => exact .url _
    · exact .function _
  · rw [identLike_ident hparen]
    exact .ident _

def IsOther (kind : TokenKind) : Prop := kind.number? = none ∧ ¬ kind.IsNamed

theorem isOther_pair {d : Char} (h : pair? c d = some kind) : IsOther kind := by
  unfold pair? at h
  split at h <;> cases h <;> exact ⟨rfl, by rintro ⟨⟩⟩

theorem isOther_sign (c : Char) : IsOther ((sign? c).getD (.delim c)) := by
  unfold sign?
  split <;> exact ⟨rfl, by rintro ⟨⟩⟩

theorem isOther_unicodeRange (text : List Char) : IsOther (unicodeRange text).value := by
  unfold unicodeRange
  dsimp only
  split
  · split
    · split <;> exact ⟨rfl, by rintro ⟨⟩⟩
    · exact ⟨rfl, by rintro ⟨⟩⟩
  · exact ⟨rfl, by rintro ⟨⟩⟩

theorem isOther_of_chosen {start : Start} (h : Start.Chosen c rest start)
    (hv : (start.scan c rest).value = .ok kind) :
    Numeral.starts (c :: rest) ∨ startsName (c :: rest) ∧ kind = (identLike (c :: rest)).value ∨
      IsOther kind := by
  cases h with
  | numeral starts => exact .inl starts
  | name _ _ starts => exact .inr (.inl ⟨starts, (Except.ok.inj hv).symm⟩)
  | quote quoted =>
    rw [Start.scan, Scanned.value_map] at hv
    split at hv <;> cases hv <;> exact .inr (.inr ⟨rfl, by rintro ⟨⟩⟩)
  | pair other signs =>
    cases hv
    obtain ⟨d, -, hd⟩ := Option.bind_eq_some_iff.mp signs
    exact .inr (.inr (isOther_pair hd))
  | lone =>
    cases hv
    exact .inr (.inr (isOther_sign c))
  | _ =>
    cases hv
    exact .inr (.inr ⟨rfl, by rintro ⟨⟩⟩)

/-- Only a numeral makes a number. -/
theorem number?_of_not_starts {rangesAllowed : Bool}
    (hv : (token rangesAllowed c rest).value = .ok kind) (h : ¬ Numeral.starts (c :: rest)) :
    kind.number? = none := by
  rw [token_eq_scan] at hv
  rcases Start.of_eq_range_or rangesAllowed c rest with ⟨-, heq⟩ | heq
  · rw [heq] at hv
    cases hv
    exact (isOther_unicodeRange _).1
  · rw [heq] at hv
    rcases isOther_of_chosen (Start.chosen_of c rest) hv with hstarts | ⟨-, rfl⟩ | hother
    · exact absurd hstarts h
    · exact (identLike_isNamed (c :: rest)).number?_eq
    · exact hother.1

theorem numeric_number? {text : List Char} (hv : (numeric text).value = .ok kind) :
    ∃ x, kind.number? = some x := by
  unfold numeric at hv
  dsimp only at hv
  split at hv
  · cases hv
  · split at hv
    · cases hv
      exact ⟨_, rfl⟩
    · split at hv <;> cases hv <;> exact ⟨_, rfl⟩

/-- Only a name makes a token that starts with one, where ranges are not allowed. -/
theorem startsName_of_isNamed (hv : (token false c rest).value = .ok kind) (h : kind.IsNamed) :
    startsName (c :: rest) := by
  rw [token_eq_scan] at hv
  rcases isOther_of_chosen (Start.chosen_of c rest) hv with hstarts | ⟨hname, -⟩ | hother
  · rw [Start.of_numeral hstarts] at hv
    obtain ⟨x, hx⟩ := numeric_number? hv
    rw [h.number?_eq] at hx
    cases hx
  · exact hname
  · exact absurd h hother.2

end Kind

end Lexer

end StyleValue
