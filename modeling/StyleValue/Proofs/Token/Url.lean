import StyleValue.Proofs.Token.OneToken

/-!
# URLs with and without quotes

The characters of a URL that is written without quotes are read alike with quotes around them.
White space may stand on both sides of them either way.
-/

set_option autoImplicit false

namespace StyleValue

def isUrlPart (c : Char) : Bool :=
  !isWhitespace c && !isNonPrintable c && !(['"', '\'', '(', ')', '\\'].contains c)

section Part

variable {c : Char} (h : isUrlPart c)
include h

theorem isWhitespace_urlPart : isWhitespace c = false := by
  simp only [isUrlPart, Bool.and_eq_true, Bool.not_eq_true'] at h
  exact h.1.1

theorem isNonPrintable_urlPart : isNonPrintable c = false := by
  simp only [isUrlPart, Bool.and_eq_true, Bool.not_eq_true'] at h
  exact h.1.2

theorem urlPart_ne {d : Char} (hd : isUrlPart d = false) : c ≠ d := by
  rintro rfl
  rw [hd] at h
  cases h

theorem isNewline_urlPart : isNewline c = false := by
  have hspace := isWhitespace_urlPart h
  simp only [isWhitespace, Ordinal.isWhitespace, Bool.or_eq_false_iff] at hspace
  exact hspace.1.1

end Part

namespace Lexer

variable {front x back : List Char}

theorem unquotedUrl_close (rest : List Char) : unquotedUrl (')' :: rest) = ⟨some [], rest, []⟩ := by
  rw [unquotedUrl.eq_def]
  simp

theorem unquotedUrl_part {c : Char} (h : isUrlPart c) (rest : List Char) :
    unquotedUrl (c :: rest) = (unquotedUrl rest).map (Option.map (c :: ·)) := by
  rw [unquotedUrl.eq_def]
  simp [isWhitespace_urlPart h, isNonPrintable_urlPart h, urlPart_ne h (d := ')') (by decide),
    urlPart_ne h (d := '"') (by decide), urlPart_ne h (d := '\'') (by decide),
    urlPart_ne h (d := '(') (by decide), urlPart_ne h (d := '\\') (by decide)]

theorem unquotedUrl_parts (hx : ∀ c ∈ x, isUrlPart c) (hback : ∀ c ∈ back, isWhitespace c)
    (rest : List Char) : unquotedUrl (x ++ (back ++ ')' :: rest)) = ⟨some x, rest, []⟩ := by
  induction x with
  | nil =>
    rw [List.nil_append]
    cases back with
    | nil => exact unquotedUrl_close rest
    | cons c back =>
      obtain ⟨hc, hothers⟩ := List.forall_mem_cons.1 hback
      have hclose : c ≠ ')' := by
        rintro rfl
        exact absurd hc (by decide)
      exact unquotedUrl_space hclose hc hothers (by decide) rest
  | cons c x ih =>
    obtain ⟨hc, hothers⟩ := List.forall_mem_cons.1 hx
    rw [List.cons_append, unquotedUrl_part hc, ih hothers]
    rfl

theorem url_plain (hfront : ∀ c ∈ front, isWhitespace c) (hx : ∀ c ∈ x, isUrlPart c)
    (hback : ∀ c ∈ back, isWhitespace c) (rest : List Char) :
    url (front ++ (x ++ (back ++ ')' :: rest))) = ⟨some x, rest, []⟩ := by
  cases x with
  | nil =>
    have hspace : ∀ c ∈ front ++ back, isWhitespace c := by
      intro c hc
      exact (List.mem_append.1 hc).elim (hfront c) (hback c)
    rw [List.nil_append, ← List.append_assoc, url_space hspace (by decide)]
    exact unquotedUrl_close rest
  | cons c x =>
    have hc : isUrlPart c := hx c List.mem_cons_self
    have hquote : ¬ (c = '"' ∨ c = '\'') := by
      simp [urlPart_ne hc (d := '"') (by decide), urlPart_ne hc (d := '\'') (by decide)]
    rw [List.cons_append, url_space hfront (isWhitespace_urlPart hc),
      if_neg (by simpa using hquote)]
    exact unquotedUrl_parts hx hback rest

theorem string_parts {quote : Char} (hquote : isUrlPart quote = false)
    (hx : ∀ c ∈ x, isUrlPart c) (rest : List Char) :
    string quote (x ++ quote :: rest) = ⟨some x, rest, []⟩ := by
  induction x with
  | nil => exact string_close rest
  | cons c x ih =>
    obtain ⟨hc, hothers⟩ := List.forall_mem_cons.1 hx
    have hslash : c ≠ '\\' := urlPart_ne hc (by decide)
    rw [List.cons_append, string_char _ (urlPart_ne hc hquote) (isNewline_urlPart hc) hslash,
      ih hothers]
    rfl

/-- The value of a string is that of a URL, with white space around the string. -/
theorem url_string {quote : Char} {text value : List Char} (hfront : ∀ c ∈ front, isWhitespace c)
    (hquote : quote = '"' ∨ quote = '\'') (hback : ∀ c ∈ back, isWhitespace c) (rest : List Char)
    (h : string quote text = ⟨some value, back ++ ')' :: rest, []⟩) :
    url (front ++ quote :: text) = ⟨some value, rest, []⟩ := by
  have hspace : isWhitespace quote = false := by rcases hquote with rfl | rfl <;> decide
  rw [url_space hfront hspace, if_pos (by simpa using hquote),
    quotedUrl_string hback (by decide) h, if_pos rfl]

end Lexer

namespace Filter

variable {front x back : List Char}

theorem blank_append {s t : List Char} (hs : ∀ c ∈ chars s, isWhitespace c)
    (ht : ∀ c ∈ chars t, isWhitespace c) : ∀ c ∈ chars (s ++ t), isWhitespace c := by
  intro c hc
  exact (mem_chars_append.1 hc).elim (hs c) (ht c)

theorem ne_of_urlPart (hx : ∀ c ∈ chars x, isUrlPart c) {c : Char} (hc : c ∈ x) :
    c ≠ '\n' ∧ c ≠ carriageReturn := by
  have hpart : isUrlPart (replaceAny c) := hx _ (mem_chars.2 ⟨c, hc, rfl⟩)
  constructor <;>
  · rintro rfl
    exact absurd hpart (by decide)

/-- White space around the parts of a URL is white space after filtering. If there are no parts, a
line end may begin in front of them and end behind them. -/
theorem chars_spaced (hfront : ∀ c ∈ chars front, isWhitespace c)
    (hx : ∀ c ∈ chars x, isUrlPart c) (hback : ∀ c ∈ chars back, isWhitespace c)
    {rest : List Char} (hrest : rest.head? ≠ some '\n') :
    ∃ before after, (∀ c ∈ before, isWhitespace c) ∧ (∀ c ∈ after, isWhitespace c) ∧
      chars (front ++ (x ++ (back ++ rest))) = before ++ (chars x ++ (after ++ chars rest)) := by
  by_cases hempty : x = []
  · subst hempty
    refine ⟨chars (front ++ back), [], blank_append hfront hback, by simp, ?_⟩
    rw [List.nil_append, ← List.append_assoc, chars_append (.inr hrest)]
    rfl
  · have hhead : (x ++ (back ++ rest)).head? ≠ some '\n' := by
      obtain ⟨c, others, rfl⟩ := List.exists_cons_of_ne_nil hempty
      simpa using (ne_of_urlPart hx (c := c) (by simp)).1
    have hlast : x.getLast? ≠ some carriageReturn := by
      intro hlast
      exact (ne_of_urlPart hx (List.mem_of_getLast? hlast)).2 rfl
    refine ⟨chars front, chars back, hfront, hback, ?_⟩
    rw [chars_append (.inr hhead), chars_append (.inl hlast), chars_append (.inr hrest)]

end Filter

section Token

variable (rangesAllowed : Bool) {letters front x back : List Char}
  (hname : Lexer.SpellsUrl letters) (hfront : ∀ c ∈ Filter.chars front, isWhitespace c)
  (hx : ∀ c ∈ Filter.chars x, isUrlPart c) (hback : ∀ c ∈ Filter.chars back, isWhitespace c)
include hname hfront hx hback

theorem isOneToken_plain : IsOneToken rangesAllowed
    (String.ofList (letters ++ '(' :: (front ++ (x ++ (back ++ [')'])))))
    (.url (String.ofList (Filter.chars x))) := by
  apply IsOneToken.url rangesAllowed hname
  have hclose : [')'].head? ≠ some '\n' := by decide
  obtain ⟨before, after, hbefore, hafter, hchars⟩ := Filter.chars_spaced hfront hx hback hclose
  rw [hchars]
  exact Lexer.url_plain hbefore hx hafter []

theorem isOneToken_quoted {quote : Char} (hquote : quote = '"' ∨ quote = '\'') :
    IsOneToken rangesAllowed
      (String.ofList (letters ++ '(' :: (front ++ quote :: (x ++ quote :: (back ++ [')'])))))
      (.url (String.ofList (Filter.chars x))) := by
  apply IsOneToken.url rangesAllowed hname
  have hnewline : quote ≠ '\n' := by rcases hquote with rfl | rfl <;> decide
  have hplain : isPlain quote := by rcases hquote with rfl | rfl <;> decide
  have hpart : isUrlPart quote = false := by rcases hquote with rfl | rfl <;> decide
  have hchars : Filter.chars (front ++ quote :: (x ++ quote :: (back ++ [')']))) =
      Filter.chars front ++ quote :: (Filter.chars x ++ quote :: (Filter.chars back ++ [')'])) := by
    rw [Filter.chars_append (.inr (by simpa using hnewline)), Filter.chars_plain_cons hplain,
      Filter.chars_append (.inr (by simpa using hnewline)), Filter.chars_plain_cons hplain,
      Filter.chars_append (.inr (by decide))]
    rfl
  rw [hchars]
  exact Lexer.url_string hfront hquote hback [] (Lexer.string_parts hpart hx _)

end Token

/-- Whether a URL is in quotes makes no difference, as long as it may stand without: with white
space around it or not, in either quotes, and with the name `url` in whatever case, a text is the
one URL whose characters these are after filtering. -/
theorem url_quoted_or_not (rangesAllowed : Bool) {name front x back : String} {quote : Char}
    (hname : foldAscii name = "url") (hfront : ∀ cp ∈ filter front, isWhitespace cp.char)
    (hx : ∀ cp ∈ filter x, isUrlPart cp.char) (hback : ∀ cp ∈ filter back, isWhitespace cp.char)
    (hquote : quote = '"' ∨ quote = '\'') :
    IsOneToken rangesAllowed (name ++ "(" ++ front ++ x ++ back ++ ")")
      (.url (String.ofList ((filter x).map CodePoint.char))) ∧
    IsOneToken rangesAllowed
      (name ++ "(" ++ front ++ String.singleton quote ++ x ++ String.singleton quote ++ back ++ ")")
      (.url (String.ofList ((filter x).map CodePoint.char))) := by
  have hspells : Lexer.SpellsUrl name.toList := by
    simpa [Lexer.SpellsUrl, foldAscii] using String.toList_inj.2 hname
  have hchars (text : String) : (filter text).map CodePoint.char = Filter.chars text.toList :=
    Filter.map_char_filter text
  have hall {text : String} {p : Char → Bool} (h : ∀ cp ∈ filter text, p cp.char) :
      ∀ c ∈ Filter.chars text.toList, p c := by
    rw [← hchars, List.forall_mem_map]
    exact h
  have hplain := isOneToken_plain rangesAllowed hspells (hall hfront) (hall hx) (hall hback)
  have hquoted := isOneToken_quoted rangesAllowed hspells (hall hfront) (hall hx) (hall hback)
    hquote
  rw [hchars]
  exact ⟨hplain.of_toList_eq (by simp), hquoted.of_toList_eq (by simp)⟩

/-- A URL with the marks of a comment, a comma and a NUL, between the two halves of what would be a
line end without it. -/
theorem url_quoted_or_not_comment :
    foldAscii "uRL" = "url" ∧ (filter "/*,#\x00").map CodePoint.char = "/*,#\ufffd".toList ∧
    IsOneToken true "uRL(\r/*,#\x00\n)" (.url "/*,#\ufffd") ∧
    IsOneToken true "uRL(\r'/*,#\x00'\n)" (.url "/*,#\ufffd") := by
  have hname : foldAscii "uRL" = "url" := by decide +kernel
  have hvalue : (filter "/*,#\x00").map CodePoint.char = "/*,#\ufffd".toList := by decide +kernel
  have hfront : ∀ cp ∈ filter "\r", isWhitespace cp.char := by decide +kernel
  have hx : ∀ cp ∈ filter "/*,#\x00", isUrlPart cp.char := by decide +kernel
  have hback : ∀ cp ∈ filter "\n", isWhitespace cp.char := by decide +kernel
  have hquote : '\'' = '"' ∨ '\'' = '\'' := .inr rfl
  have h := url_quoted_or_not true hname hfront hx hback hquote
  rw [hvalue] at h
  exact ⟨hname, hvalue, h⟩

end StyleValue
