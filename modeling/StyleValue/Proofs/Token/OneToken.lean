import StyleValue.Proofs.Text.Filter
import StyleValue.Proofs.Text.Lowercase
import StyleValue.Proofs.Token.First

/-!
# Texts of one token

A text is one token if the scanner that its first character leads to takes all of its filtered
characters. Names lead to their scanner whether or not ranges of code points are allowed, and the
name `url` with a parenthesis to that of URLs, whatever the case of its letters.
-/

set_option autoImplicit false

namespace StyleValue

def IsOneToken (rangesAllowed : Bool) (text : String) (kind : TokenKind) : Prop :=
  lexChunks rangesAllowed [text] = .ofTokens [⟨kind, text⟩]

theorem IsOneToken.of_toList_eq {rangesAllowed : Bool} {text text' : String} {kind : TokenKind}
    (h : IsOneToken rangesAllowed text kind) (heq : text.toList = text'.toList) :
    IsOneToken rangesAllowed text' kind := by
  rwa [← String.toList_inj.1 heq]

theorem IsOneToken.of_scan {rangesAllowed : Bool} {text : String} {kind : TokenKind} {c : Char}
    {rest : List Char} (hchars : Filter.chars text.toList = c :: rest) (hslash : c ≠ '/')
    (h : Lexer.token rangesAllowed c rest = ⟨.ok kind, [], []⟩) :
    IsOneToken rangesAllowed text kind := by
  rw [← Filter.map_char_filter] at hchars
  obtain ⟨cp, cps, hcps, rfl, rfl⟩ := List.map_eq_cons_iff.1 hchars
  have hscan : scanPoints rangesAllowed cp (cps ++ []) = ⟨.ok kind, [], []⟩ := by
    rw [List.append_nil, scanPoints, h]
  have hlex := lex_first hslash hscan
  have hsource := Filter.sources_filter text
  rw [hcps] at hsource
  rw [List.append_nil, lex_nil, hsource, String.ofList_toList] at hlex
  rw [IsOneToken, lexChunks, hcps, hlex]
  rfl

namespace Lexer

theorem continuesRange_other {c : Char} (h : c ≠ '+') (rest : List Char) :
    continuesRange (c :: rest) = false := by
  rw [continuesRange]
  rintro d others heq
  exact h (List.cons.inj heq).1

theorem Start.of_eq_of_not_range (rangesAllowed : Bool) {c : Char} {rest : List Char}
    (h : continuesRange rest = false) : of rangesAllowed c rest = of false c rest := by
  simp [of, h]

/-- A text that starts with a name, and neither with a hyphen nor as a range does. -/
theorem token_name (rangesAllowed : Bool) {c : Char} {rest : List Char}
    (hname : startsName (c :: rest)) (hdash : c ≠ '-') (hrange : continuesRange rest = false) :
    token rangesAllowed c rest = (identLike (c :: rest)).map .ok := by
  have hchosen : Start.Chosen c rest .name :=
    .name (by simp [not_starts_of_startsName hname]) (fun h => hdash h.1) hname
  rw [token_eq_scan, Start.of_eq_of_not_range rangesAllowed hrange, hchosen.of_eq]
  rfl

theorem isIdentStart_of_lowerAscii {c : Char} (h : isIdentStart (lowerAscii c)) :
    isIdentStart c := by
  unfold lowerAscii at h
  split at h
  · next hcapital =>
    have hbounds : 0x41 ≤ c.toNat ∧ c.toNat ≤ 0x5a := hcapital
    simp [isIdentStart, Ordinal.isIdentStart, hbounds]
  · exact h

def SpellsUrl (letters : List Char) : Prop := letters.map lowerAscii = ['u', 'r', 'l']

section Url

variable {letters : List Char} (h : SpellsUrl letters)
include h

theorem SpellsUrl.lowercase : lowercase (String.ofList letters) = "url" := by
  have hurl : InAsciiWithoutK "url" := by decide
  rw [hurl.lowercase_eq_iff, ← String.toList_inj, foldAscii, String.toList_map,
    String.toList_ofList]
  exact h

theorem SpellsUrl.isIdentStart : ∀ c ∈ letters, isIdentStart c := by
  intro c hc
  have hlower : lowerAscii c ∈ ['u', 'r', 'l'] := h ▸ List.mem_map_of_mem hc
  apply isIdentStart_of_lowerAscii
  revert hlower
  generalize lowerAscii c = letter
  intro hletter
  simp only [List.mem_cons, List.not_mem_nil, or_false] at hletter
  rcases hletter with rfl | rfl | rfl <;> decide

theorem SpellsUrl.ne {sign : Char} (hsign : StyleValue.isIdentStart sign = false) :
    ∀ c ∈ letters, c ≠ sign := by
  rintro c hc rfl
  simp [h.isIdentStart c hc] at hsign

theorem SpellsUrl.name (rest : List Char) :
    Lexer.name (letters ++ '(' :: rest) = ⟨letters, '(' :: rest, []⟩ := by
  apply name_letters _ _ _ (endsName_parenthesis rest)
  exact List.all_eq_true.2 fun c hc => isIdent_of_isIdentStart (h.isIdentStart c hc)

end Url

theorem token_url (rangesAllowed : Bool) {c : Char} {letters : List Char}
    (h : SpellsUrl (c :: letters)) (argument : List Char) :
    token rangesAllowed c (letters ++ '(' :: argument) =
      (url argument).map fun value => .ok (urlKind value) := by
  obtain ⟨d, others, rfl, -, -⟩ := List.map_eq_cons_iff.1 (List.cons.inj h).2
  have hdash : c ≠ '-' := h.ne (by decide) c (by simp)
  have hplus : d ≠ '+' := h.ne (by decide) d (by simp)
  have hstarts : startsName (c :: (d :: others ++ '(' :: argument)) := by
    rw [startsName_cons _ hdash, h.isIdentStart c (by simp), Bool.true_or]
  rw [token_name rangesAllowed hstarts hdash (continuesRange_other hplus _), ← List.cons_append,
    identLike_function (h.name argument), if_pos h.lowercase]
  rfl

end Lexer

/-- The letters of `url` with an argument and its parentheses are one URL. -/
theorem IsOneToken.url (rangesAllowed : Bool) {letters argument value : List Char}
    (hname : Lexer.SpellsUrl letters)
    (h : Lexer.url (Filter.chars argument) = ⟨some value, [], []⟩) :
    IsOneToken rangesAllowed (String.ofList (letters ++ '(' :: argument))
      (.url (String.ofList value)) := by
  have hplain : ∀ c ∈ letters ++ ['('], isPlain c := by
    intro c hc
    rcases List.mem_append.1 hc with hletter | hparen
    · exact isPlain_of_isIdent (Lexer.isIdent_of_isIdentStart (hname.isIdentStart c hletter))
    · obtain rfl := List.mem_singleton.1 hparen
      decide
  have hchars : Filter.chars (letters ++ '(' :: argument) =
      letters ++ '(' :: Filter.chars argument := by
    simpa using Filter.chars_plain_append hplain argument
  cases letters with
  | nil => cases hname
  | cons c letters =>
    refine .of_scan ((congrArg _ (String.toList_ofList)).trans hchars)
      (hname.ne (by decide) c (by simp)) ?_
    change Lexer.token rangesAllowed c (letters ++ '(' :: Filter.chars argument) = _
    rw [Lexer.token_url rangesAllowed hname, h]
    rfl

end StyleValue
