import Mathlib.Data.Nat.Digits.Defs
import StyleValue.Proofs.Token.Url

/-!
# Escapes of ordinals

An escape of one to six hexadecimal digits and the white space that ends it stands for the same
character wherever escapes may stand: in a name with or without a sign before it, in a unit, in a
string and in a URL.
-/

set_option autoImplicit false

namespace StyleValue

inductive EscapeEnd
  | space
  | tab
  | newline
  | carriageReturn
  | lineEnd
  | formFeed
deriving DecidableEq

namespace EscapeEnd

def text : EscapeEnd → List Char
  | .space => [' ']
  | .tab => ['\t']
  | .newline => ['\n']
  | .carriageReturn => [Filter.carriageReturn]
  | .lineEnd => [Filter.carriageReturn, '\n']
  | .formFeed => [Filter.formFeed]

def char : EscapeEnd → Char
  | .space => ' '
  | .tab => '\t'
  | _ => '\n'

theorem isWhitespace_char (e : EscapeEnd) : isWhitespace e.char := by
  cases e <;> decide

theorem chars_text (e : EscapeEnd) : Filter.chars e.text = [e.char] := by
  cases e <;> decide

end EscapeEnd

structure HexEscape where
  digits : List Char
  ending : EscapeEnd
  isHex : ∀ c ∈ digits, isHexDigit c
  nonempty : digits ≠ []
  most : digits.length ≤ 6

namespace HexEscape

def text (e : HexEscape) : List Char := '\\' :: (e.digits ++ e.ending.text)

def ordinal (e : HexEscape) : Nat := Nat.ofDigits 16 (e.digits.reverse.map hexValue)

def filtered (e : HexEscape) : List Char := '\\' :: (e.digits ++ [e.ending.char])

end HexEscape

theorem ofHexDigits_append_singleton (digits : List Char) (c : Char) :
    ofHexDigits (digits ++ [c]) = 16 * ofHexDigits digits + hexValue c := by
  simp [ofHexDigits]

theorem ofHexDigits_eq_ofDigits (digits : List Char) :
    ofHexDigits digits = Nat.ofDigits 16 (digits.reverse.map hexValue) := by
  induction digits using List.reverseRecOn with
  | nil => rfl
  | append_singleton digits c ih =>
    rw [ofHexDigits_append_singleton, List.reverse_append, List.reverse_singleton,
      List.singleton_append, List.map_cons, Nat.ofDigits_cons, ih, Nat.add_comm]

theorem exists_hexDigits (count n : Nat) (h : n < 16 ^ (count + 1)) :
    ∃ digits, (∀ c ∈ digits, isHexDigit c) ∧ digits ≠ [] ∧ digits.length ≤ count + 1 ∧
      ofHexDigits digits = n := by
  have hdigit : ∀ d < 16, isHexDigit d.digitChar ∧ hexValue d.digitChar = d := by decide
  induction count generalizing n with
  | zero =>
    obtain ⟨hhex, hvalue⟩ := hdigit n (by simpa using h)
    exact ⟨[n.digitChar], by simpa using hhex, by simp, by simp,
      by simpa [ofHexDigits] using hvalue⟩
  | succ count ih =>
    have hhigh : n / 16 < 16 ^ (count + 1) := by
      rw [pow_succ] at h
      omega
    obtain ⟨digits, hall, hne, hlength, hvalue⟩ := ih (n / 16) hhigh
    obtain ⟨hhex, hlow⟩ := hdigit (n % 16) (Nat.mod_lt n (by decide))
    refine ⟨digits ++ [(n % 16).digitChar], ?_, by simp, by simpa using hlength, ?_⟩
    · intro c hc
      rcases List.mem_append.1 hc with hc | hc
      · exact hall c hc
      · rwa [List.mem_singleton.1 hc]
    · rw [ofHexDigits_append_singleton, hvalue, hlow]
      omega

namespace HexEscape

theorem ofHexDigits_digits (e : HexEscape) : ofHexDigits e.digits = e.ordinal :=
  ofHexDigits_eq_ofDigits e.digits

theorem exists_ordinal {n : Nat} (h : n < 2 ^ 24) : ∃ e : HexEscape, e.ordinal = n := by
  obtain ⟨digits, hall, hne, hlength, hvalue⟩ := exists_hexDigits 5 n (by simpa using h)
  exact ⟨⟨digits, .space, hall, hne, hlength⟩, (ofHexDigits_digits _).symm.trans hvalue⟩

theorem exists_ordinals {ns : List Nat} (h : ∀ n ∈ ns, n < 2 ^ 24) :
    ∃ es : List HexEscape, es.map ordinal = ns := by
  induction ns with
  | nil => exact ⟨[], rfl⟩
  | cons n ns ih =>
    obtain ⟨hn, hns⟩ := List.forall_mem_cons.1 h
    obtain ⟨e, he⟩ := exists_ordinal hn
    obtain ⟨es, hes⟩ := ih hns
    exact ⟨e :: es, by rw [List.map_cons, he, hes]⟩

def texts (es : List HexEscape) : List Char := es.flatMap text

theorem head?_texts_append (es : List HexEscape) {rest : List Char}
    (h : rest.head? ≠ some '\n') : (texts es ++ rest).head? ≠ some '\n' := by
  cases es with
  | nil => exact h
  | cons e es => simp [texts, text]

theorem chars_texts_append (es : List HexEscape) (rest : List Char) (h : rest.head? ≠ some '\n') :
    Filter.chars (texts es ++ rest) = es.flatMap filtered ++ Filter.chars rest := by
  induction es with
  | nil => rfl
  | cons e es ih =>
    have hplain : ∀ c ∈ '\\' :: e.digits, isPlain c := by
      refine List.forall_mem_cons.2 ⟨by decide, ?_⟩
      intro c hc
      exact isPlain_of_isIdent (Lexer.isIdent_of_isHexDigit (e.isHex c hc))
    have hsplit : texts (e :: es) ++ rest =
        '\\' :: e.digits ++ (e.ending.text ++ (texts es ++ rest)) := by
      simp [texts, text]
    rw [hsplit, Filter.chars_plain_append hplain,
      Filter.chars_append (.inr (head?_texts_append es h)), ih, EscapeEnd.chars_text]
    simp [filtered]

theorem chars_texts (es : List HexEscape) : Filter.chars (texts es) = es.flatMap filtered := by
  simpa using chars_texts_append es [] (by decide)

def values (es : List HexEscape) : List Char := es.map fun e => charOfOrdinal e.ordinal

theorem filtered_cons_append (e : HexEscape) (es : List HexEscape) (rest : List Char) :
    (e :: es).flatMap filtered ++ rest =
      '\\' :: (e.digits ++ e.ending.char :: (es.flatMap filtered ++ rest)) := by
  simp [filtered]

theorem escape_filtered (e : HexEscape) (rest : List Char) :
    Lexer.escape (e.digits ++ e.ending.char :: rest) = ⟨charOfOrdinal e.ordinal, rest, []⟩ := by
  have hstop : isHexDigit e.ending.char = false :=
    Lexer.isHexDigit_whitespace e.ending.isWhitespace_char
  rw [Lexer.escape_digits _ _ e.isHex e.nonempty e.most (.inr (by simpa using hstop)),
    ofHexDigits_digits]
  simp [Lexer.dropSpace, e.ending.isWhitespace_char]

theorem startsEscape_filtered (e : HexEscape) (rest : List Char) :
    Lexer.startsEscape ('\\' :: (e.digits ++ rest)) :=
  Lexer.startsEscape_digits e.isHex e.nonempty rest

section Scan

variable (es : List HexEscape)

theorem name_escapes (rest : List Char) (h : Lexer.EndsName rest) :
    Lexer.name (es.flatMap filtered ++ rest) = ⟨values es, rest, []⟩ := by
  induction es with
  | nil => exact Lexer.name_stop h
  | cons e es ih =>
    rw [filtered_cons_append, Lexer.name_escape _ (e.startsEscape_filtered _), e.escape_filtered,
      ih]
    rfl

theorem string_escapes {quote : Char} (hquote : '\\' ≠ quote) (rest : List Char) :
    Lexer.string quote (es.flatMap filtered ++ quote :: rest) = ⟨some (values es), rest, []⟩ := by
  induction es with
  | nil => exact Lexer.string_close rest
  | cons e es ih =>
    have hhead (others : List Char) : (e.digits ++ others).head?.any isNewline = false := by
      simpa [Lexer.startsEscape_cons] using e.startsEscape_filtered others
    rw [filtered_cons_append, Lexer.string_escape _ hquote (by simp) (hhead _), e.escape_filtered,
      ih]
    rfl

theorem unquotedUrl_escape {rest : List Char} (h : Lexer.startsEscape ('\\' :: rest)) :
    Lexer.unquotedUrl ('\\' :: rest) =
      ((Lexer.unquotedUrl (Lexer.escape rest).rest).map
        (Option.map ((Lexer.escape rest).value :: ·))).after (Lexer.escape rest).reports := by
  have hspace : isWhitespace '\\' = false := by decide
  have hprintable : isNonPrintable '\\' = false := by decide
  rw [Lexer.unquotedUrl.eq_def]
  simp [hspace, hprintable, h]

theorem unquotedUrl_escapes (rest : List Char) :
    Lexer.unquotedUrl (es.flatMap filtered ++ ')' :: rest) = ⟨some (values es), rest, []⟩ := by
  induction es with
  | nil => exact Lexer.unquotedUrl_close rest
  | cons e es ih =>
    rw [filtered_cons_append, unquotedUrl_escape (e.startsEscape_filtered _), e.escape_filtered, ih]
    rfl

end Scan

theorem name_filtered (es : List HexEscape) :
    Lexer.name (es.flatMap filtered) = ⟨values es, [], []⟩ := by
  simpa using name_escapes es [] nofun

/-- Neither what follows the first backslash of escapes nor the escapes go on as a range does. -/
theorem continuesRange_digits (e : HexEscape) (rest : List Char) :
    Lexer.continuesRange (e.digits ++ rest) = false := by
  obtain ⟨c, others, hdigits⟩ := List.exists_cons_of_ne_nil e.nonempty
  have hc : isHexDigit c := e.isHex c (by simp [hdigits])
  rw [hdigits]
  apply Lexer.continuesRange_other
  rintro rfl
  exact absurd hc (by decide)

section Read

variable (rangesAllowed : Bool) {es : List HexEscape} (hne : es ≠ [])
include hne

theorem flatMap_filtered : ∃ rest, es.flatMap filtered = '\\' :: rest ∧
    Lexer.startsEscape ('\\' :: rest) ∧ Lexer.continuesRange rest = false := by
  obtain ⟨e, es, rfl⟩ := List.exists_cons_of_ne_nil hne
  have hsplit := filtered_cons_append e es []
  rw [List.append_nil] at hsplit
  exact ⟨_, hsplit, e.startsEscape_filtered _, e.continuesRange_digits _⟩

theorem startsName_filtered : Lexer.startsName (es.flatMap filtered) := by
  obtain ⟨rest, hsplit, hstarts, -⟩ := flatMap_filtered hne
  rw [hsplit, Lexer.startsName_cons _ (by decide), hstarts, Bool.or_true]

theorem continuesRange_filtered : Lexer.continuesRange (es.flatMap filtered) = false := by
  obtain ⟨rest, hsplit, -, -⟩ := flatMap_filtered hne
  rw [hsplit, Lexer.continuesRange_other (by decide)]

theorem isOneToken_after {sign : Char} {start : Lexer.Start} (kind : String → TokenKind)
    (hplain : isPlain sign) (hslash : sign ≠ '/')
    (h : Lexer.Start.Chosen sign (es.flatMap filtered) start)
    (hscan : start.scan sign (es.flatMap filtered) =
      (Lexer.name (es.flatMap filtered)).map fun value => .ok (kind (String.ofList value))) :
    IsOneToken rangesAllowed (String.ofList (sign :: texts es))
      (kind (String.ofList (values es))) := by
  have hchars : Filter.chars (String.ofList (sign :: texts es)).toList =
      sign :: es.flatMap filtered := by
    rw [String.toList_ofList, Filter.chars_plain_cons hplain, chars_texts]
  apply IsOneToken.of_scan hchars hslash
  rw [Lexer.token_eq_scan,
    Lexer.Start.of_eq_of_not_range rangesAllowed (continuesRange_filtered hne), h.of_eq, hscan,
    name_filtered]
  rfl

theorem isOneToken_hash : IsOneToken rangesAllowed (String.ofList ('#' :: texts es))
    (.hash (String.ofList (values es)) true) := by
  have hstarts := startsName_filtered hne
  obtain ⟨rest, hsplit, hescape, -⟩ := flatMap_filtered hne
  apply isOneToken_after rangesAllowed hne (.hash · true) (by decide) (by decide) (.hash rfl ?_)
  · rw [Lexer.Start.scan, hstarts]
  · rw [hsplit, hescape, Bool.or_true]

theorem isOneToken_atKeyword : IsOneToken rangesAllowed (String.ofList ('@' :: texts es))
    (.atKeyword (String.ofList (values es))) :=
  isOneToken_after rangesAllowed hne .atKeyword (by decide) (by decide)
    (.atKeyword rfl (startsName_filtered hne)) rfl

theorem isOneToken_dimension : IsOneToken rangesAllowed (String.ofList ('1' :: texts es))
    (.dimension (.integer 1) (String.ofList (values es))) := by
  apply isOneToken_after rangesAllowed hne (.dimension (.integer 1)) (by decide) (by decide)
    (.numeral rfl)
  obtain ⟨rest, hsplit, -, -⟩ := flatMap_filtered hne
  -- An escaped `e` is no mark of an exponent: the backslash ends the numeral.
  have hscan : Numeral.scan ('1' :: es.flatMap filtered) =
      (⟨false, ['1'], none, none⟩, es.flatMap filtered) := by
    rw [hsplit]
    rfl
  have hvalue : (⟨false, ['1'], none, none⟩ : Numeral).value = .ok (.integer 1) := by decide
  exact Lexer.numeric_dimension hscan hvalue (startsName_filtered hne)

theorem isOneToken_ident : IsOneToken rangesAllowed (String.ofList (texts es))
    (.ident (String.ofList (values es))) := by
  have hstarts := startsName_filtered hne
  have hname := name_filtered es
  have hchars := chars_texts es
  obtain ⟨rest, hsplit, -, hrange⟩ := flatMap_filtered hne
  rw [hsplit] at hstarts hname hchars
  apply IsOneToken.of_scan (by rwa [String.toList_ofList]) (by decide)
  rw [Lexer.token_name rangesAllowed hstarts (by decide) hrange,
    Lexer.identLike_ident (by simp [hname]), hname]
  rfl

end Read

section Quoted

variable (rangesAllowed : Bool) (es : List HexEscape) {quote : Char}
  (hquote : quote = '"' ∨ quote = '\'')
include hquote

theorem chars_quoted (rest : List Char) :
    Filter.chars (quote :: (texts es ++ quote :: rest)) =
      quote :: (es.flatMap filtered ++ quote :: Filter.chars rest) := by
  have hplain : isPlain quote := by rcases hquote with rfl | rfl <;> decide
  have hnewline : quote ≠ '\n' := by rcases hquote with rfl | rfl <;> decide
  rw [Filter.chars_plain_cons hplain, chars_texts_append es _ (by simpa using hnewline),
    Filter.chars_plain_cons hplain]

theorem string_filtered (rest : List Char) :
    Lexer.string quote (es.flatMap filtered ++ quote :: rest) = ⟨some (values es), rest, []⟩ := by
  apply string_escapes
  rcases hquote with rfl | rfl <;> decide

theorem isOneToken_string :
    IsOneToken rangesAllowed (String.ofList (quote :: (texts es ++ [quote])))
      (.string (String.ofList (values es))) := by
  have hchars := chars_quoted es hquote []
  have hslash : quote ≠ '/' := by rcases hquote with rfl | rfl <;> decide
  have hstart (rest : List Char) : Lexer.Start.of rangesAllowed quote rest = .quote := by
    rcases hquote with rfl | rfl <;> rfl
  apply IsOneToken.of_scan ((congrArg _ String.toList_ofList).trans hchars) hslash
  rw [Lexer.token_eq_scan, hstart, Lexer.Start.scan, Filter.chars_nil,
    string_filtered es hquote []]
  rfl

theorem isOneToken_quotedUrl {letters : List Char} (hname : Lexer.SpellsUrl letters) :
    IsOneToken rangesAllowed
      (String.ofList (letters ++ '(' :: quote :: (texts es ++ [quote, ')'])))
      (.url (String.ofList (values es))) := by
  apply IsOneToken.url rangesAllowed hname
  rw [chars_quoted es hquote [')']]
  have hnone : ∀ c ∈ ([] : List Char), isWhitespace c := nofun
  exact Lexer.url_string hnone hquote hnone [] (string_filtered es hquote [')'])

end Quoted

theorem url_escapes (es : List HexEscape) (rest : List Char) :
    Lexer.url (es.flatMap filtered ++ ')' :: rest) = ⟨some (values es), rest, []⟩ := by
  have hurl {c : Char} (hc : c = ')' ∨ c = '\\') (others : List Char) :
      Lexer.url (c :: others) = Lexer.unquotedUrl (c :: others) := by
    have hnone : ∀ c ∈ ([] : List Char), isWhitespace c := nofun
    rcases hc with rfl | rfl <;> exact Lexer.url_space hnone (by decide) others
  have hvalue := unquotedUrl_escapes es rest
  cases es with
  | nil => exact (hurl (.inl rfl) rest).trans hvalue
  | cons e es =>
    rw [filtered_cons_append] at hvalue ⊢
    exact (hurl (.inr rfl) _).trans hvalue

theorem isOneToken_url (rangesAllowed : Bool) (es : List HexEscape) {letters : List Char}
    (hname : Lexer.SpellsUrl letters) :
    IsOneToken rangesAllowed (String.ofList (letters ++ '(' :: (texts es ++ [')'])))
      (.url (String.ofList (values es))) := by
  apply IsOneToken.url rangesAllowed hname
  rw [chars_texts_append es _ (by decide)]
  exact url_escapes es []

end HexEscape

structure ReadsAlike (rangesAllowed : Bool) (text value : String) : Prop where
  ident : IsOneToken rangesAllowed text (.ident value)
  hash : IsOneToken rangesAllowed ("#" ++ text) (.hash value true)
  atKeyword : IsOneToken rangesAllowed ("@" ++ text) (.atKeyword value)
  dimension : IsOneToken rangesAllowed ("1" ++ text) (.dimension (.integer 1) value)
  doubleQuoted : IsOneToken rangesAllowed ("\"" ++ text ++ "\"") (.string value)
  singleQuoted : IsOneToken rangesAllowed ("'" ++ text ++ "'") (.string value)
  url : IsOneToken rangesAllowed ("url(" ++ text ++ ")") (.url value)
  doubleQuotedUrl : IsOneToken rangesAllowed ("url(\"" ++ text ++ "\")") (.url value)
  singleQuotedUrl : IsOneToken rangesAllowed ("url('" ++ text ++ "')") (.url value)

theorem HexEscape.readsAlike (rangesAllowed : Bool) {es : List HexEscape} (hne : es ≠ []) :
    ReadsAlike rangesAllowed (String.ofList (texts es)) (String.ofList (values es)) := by
  have hurl : Lexer.SpellsUrl ['u', 'r', 'l'] := rfl
  have hdouble : '"' = '"' ∨ '"' = '\'' := .inl rfl
  have hsingle : '\'' = '"' ∨ '\'' = '\'' := .inr rfl
  constructor
  · exact isOneToken_ident rangesAllowed hne
  · exact (isOneToken_hash rangesAllowed hne).of_toList_eq (by simp)
  · exact (isOneToken_atKeyword rangesAllowed hne).of_toList_eq (by simp)
  · exact (isOneToken_dimension rangesAllowed hne).of_toList_eq (by simp)
  · exact (isOneToken_string rangesAllowed es hdouble).of_toList_eq (by simp)
  · exact (isOneToken_string rangesAllowed es hsingle).of_toList_eq (by simp)
  · exact (isOneToken_url rangesAllowed es hurl).of_toList_eq (by simp)
  · exact (isOneToken_quotedUrl rangesAllowed es hdouble hurl).of_toList_eq (by simp)
  · exact (isOneToken_quotedUrl rangesAllowed es hsingle hurl).of_toList_eq (by simp)

/-- Whatever ordinals escapes denote, they are read as the same characters in every place, and each
ordinal of at most six digits can be written. -/
theorem hexEscapes_read_alike (rangesAllowed : Bool) {ns : List Nat} (hne : ns ≠ [])
    (hmost : ∀ n ∈ ns, n < 2 ^ 24) :
    (∃ es : List HexEscape, es.map HexEscape.ordinal = ns) ∧
    ∀ es : List HexEscape, es.map HexEscape.ordinal = ns →
      ReadsAlike rangesAllowed (String.ofList (HexEscape.texts es))
        (String.ofList (ns.map charOfOrdinal)) := by
  constructor
  · exact HexEscape.exists_ordinals hmost
  · rintro es rfl
    have hes : es ≠ [] := by simpa using hne
    rw [List.map_map]
    exact HexEscape.readsAlike rangesAllowed hes

/-- A unit that starts as an exponent does, and a surrogate. -/
theorem hexEscapes_read_alike_exponent :
    [0x65, 0x35, 0xd800] ≠ [] ∧ (∀ n ∈ [0x65, 0x35, 0xd800], n < 2 ^ 24) ∧
    ReadsAlike true "\\65 \\000035\r\n\\D800\t" "e5\ufffd" := by
  have hne : [0x65, 0x35, 0xd800] ≠ [] := by decide
  have hmost : ∀ n ∈ [0x65, 0x35, 0xd800], n < 2 ^ 24 := by decide
  have h := (hexEscapes_read_alike true hne hmost).2
    [⟨['6', '5'], .space, List.all_eq_true.1 (by decide), by decide, by decide⟩,
      ⟨['0', '0', '0', '0', '3', '5'], .lineEnd, List.all_eq_true.1 (by decide), by decide,
        by decide⟩,
      ⟨['D', '8', '0', '0'], .tab, List.all_eq_true.1 (by decide), by decide, by decide⟩]
    (by decide)
  exact ⟨hne, hmost, h⟩

end StyleValue
