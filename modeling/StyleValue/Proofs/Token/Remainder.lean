import StyleValue.Proofs.Token.First

/-!
# What a token leaves of a text

A token takes the character that it starts with, and leaves the rest of the text or the end of it.
-/

set_option autoImplicit false

namespace StyleValue

namespace Lexer

/-- What a nonempty start of a text leaves of it comes after the first character. -/
theorem suffix_of_append {c : Char} {front back rest : List Char} (hne : front ≠ [])
    (h : c :: rest = front ++ back) : back <:+ rest := by
  cases front with
  | nil => exact absurd rfl hne
  | cons d front => exact ⟨front, (List.cons.inj h).2.symm⟩

theorem escape_suffix (text : List Char) : (escape text).rest <:+ text := by
  have hdrop (text : List Char) : dropSpace text <:+ text := by
    unfold dropSpace
    split
    · split
      · exact List.suffix_cons _ _
      · exact List.suffix_rfl
    · exact List.suffix_rfl
  unfold escape
  dsimp only
  split
  · exact List.suffix_rfl
  · split
    · exact (hdrop _).trans (List.drop_suffix _ _)
    · exact List.suffix_cons _ _

theorem string_suffix (quote : Char) (text : List Char) : (string quote text).rest <:+ text := by
  fun_induction string quote text with
  | case1 => exact List.suffix_rfl
  | case2 => exact List.suffix_cons _ _
  | case3 => exact List.suffix_rfl
  | case4 => exact List.nil_suffix
  | case5 d others _ _ _ ih => exact ih.trans ((List.suffix_cons _ _).trans (List.suffix_cons _ _))
  | case6 d others _ escaped _ _ ih =>
    exact ih.trans ((escape_suffix (d :: others)).trans (List.suffix_cons _ _))
  | case7 _ _ _ _ _ ih => exact ih.trans (List.suffix_cons _ _)

theorem remnants_suffix (text : List Char) : (remnants text).rest <:+ text := by
  fun_induction remnants text with
  | case1 => exact List.suffix_rfl
  | case2 => exact List.suffix_cons _ _
  | case3 _ rest _ _ escaped ih =>
    exact ih.trans ((escape_suffix rest).trans (List.suffix_cons _ _))
  | case4 _ _ _ _ ih => exact ih.trans (List.suffix_cons _ _)

theorem unquotedUrl_suffix (text : List Char) : (unquotedUrl text).rest <:+ text := by
  have hbad (reports : List LexicalError) (c : Char) (text : List Char) :
      (badUrl reports text).rest <:+ c :: text :=
    (remnants_suffix text).trans (List.suffix_cons c text)
  fun_induction unquotedUrl text with
  | case1 => exact List.suffix_rfl
  | case2 => exact List.suffix_cons _ _
  | case3 => exact List.nil_suffix
  | case4 _ rest _ _ others heq =>
    have hspace : rest.dropWhile isWhitespace <:+ rest := List.dropWhile_suffix _
    rw [heq] at hspace
    exact ((List.suffix_cons _ _).trans hspace).trans (List.suffix_cons _ _)
  | case5 _ rest _ _ d others heq =>
    have hspace : rest.dropWhile isWhitespace <:+ rest := List.dropWhile_suffix _
    rw [heq] at hspace
    exact (remnants_suffix _).trans (hspace.trans (List.suffix_cons _ _))
  | case6 => exact hbad _ _ _
  | case7 rest escaped _ _ _ _ ih =>
    exact ih.trans ((escape_suffix rest).trans (List.suffix_cons _ _))
  | case8 => exact hbad _ _ _
  | case9 _ _ _ _ _ _ ih => exact ih.trans (List.suffix_cons _ _)

theorem quotedUrl_suffix (quote : Char) (text : List Char) :
    (quotedUrl quote text).rest <:+ text := by
  have hstring := string_suffix quote text
  have hspace : (string quote text).rest.dropWhile isWhitespace <:+ (string quote text).rest :=
    List.dropWhile_suffix _
  unfold quotedUrl
  dsimp only
  split
  · exact List.nil_suffix
  · next c rest _ heq =>
    rw [heq] at hspace
    split
    · exact ((List.suffix_cons c rest).trans hspace).trans hstring
    · exact (remnants_suffix _).trans (hspace.trans hstring)
  · exact (remnants_suffix _).trans hstring

theorem url_suffix (text : List Char) : (url text).rest <:+ text := by
  have hspace : text.dropWhile isWhitespace <:+ text := List.dropWhile_suffix _
  unfold url
  split
  · next c rest heq =>
    rw [heq] at hspace
    split
    · exact (quotedUrl_suffix c rest).trans ((List.suffix_cons c rest).trans hspace)
    · exact (unquotedUrl_suffix _).trans hspace
  · exact (unquotedUrl_suffix []).trans List.nil_suffix

theorem name_suffix (text : List Char) : (name text).rest <:+ text :=
  have ⟨p, hsplit, _⟩ := exists_longest_name text
  ⟨p, hsplit.symm⟩

/-- A text that starts with a name starts with something of it. -/
theorem ne_nil_of_startsName {text p : List Char} (hname : startsName text)
    (hsplit : text = p ++ (name text).rest) : p ≠ [] := by
  rintro rfl
  obtain ⟨hident, hescape⟩ := name_stops text
  rw [← hsplit.trans (List.nil_append _)] at hident hescape
  cases text with
  | nil => cases hname
  | cons c rest =>
    rw [startsName_of_not_ident (hident c (by simp)) hescape] at hname
    cases hname

theorem identLike_suffix_name (text : List Char) : (identLike text).rest <:+ (name text).rest := by
  by_cases hparen : (name text).rest.head? = some '('
  · obtain ⟨rest, hrest⟩ := List.head?_eq_some_iff.mp hparen
    rw [identLike_function (by rw [← hrest]), hrest]
    split
    · exact (url_suffix rest).trans (List.suffix_cons _ _)
    · exact List.suffix_cons _ _
  · rw [identLike_ident hparen]
    exact List.suffix_rfl

variable {c : Char} {rest : List Char}

theorem identLike_suffix (h : startsName (c :: rest)) : (identLike (c :: rest)).rest <:+ rest := by
  obtain ⟨p, hsplit, -⟩ := exists_longest_name (c :: rest)
  exact (identLike_suffix_name (c :: rest)).trans
    (suffix_of_append (ne_nil_of_startsName h hsplit) hsplit)

theorem numeric_suffix_scan (text : List Char) :
    (numeric text).rest <:+ (Numeral.scan text).2 := by
  unfold numeric
  dsimp only
  split
  · exact List.suffix_rfl
  · split
    · exact name_suffix _
    · split
      · next heq =>
        rw [heq]
        exact List.suffix_cons _ _
      · exact List.suffix_rfl

theorem numeric_suffix (h : Numeral.starts (c :: rest)) : (numeric (c :: rest)).rest <:+ rest := by
  obtain ⟨p, hspelling, hsplit, -⟩ := Numeral.exists_spelling h
  exact (numeric_suffix_scan (c :: rest)).trans (suffix_of_append hspelling.ne_nil hsplit)

theorem unicodeRange_suffix (text : List Char) : (unicodeRange text).rest <:+ text := by
  unfold unicodeRange
  dsimp only
  generalize (text.takeWhile isHexDigit).take 6 = digits
  generalize (((text.drop digits.length).takeWhile (· == '?')).take (6 - digits.length)) = marks
  have hrest : (text.drop digits.length).drop marks.length <:+ text :=
    (List.drop_suffix _ _).trans (List.drop_suffix _ _)
  split
  · split
    · next others heq =>
      rw [heq] at hrest
      split
      · exact heq ▸ hrest
      · exact (List.drop_suffix _ _).trans ((List.suffix_cons _ _).trans hrest)
    · exact hrest
  · exact hrest

theorem scan_suffix {start : Start} (h : Start.Chosen c rest start) :
    (start.scan c rest).rest <:+ rest := by
  cases h with
  | whitespace => exact List.dropWhile_suffix _
  | quote => exact string_suffix c rest
  | hash => exact name_suffix rest
  | numeral hstarts => exact numeric_suffix hstarts
  | atKeyword => exact name_suffix rest
  | name _ _ hname => exact identLike_suffix hname
  | commentClose | commentOpen | pair => exact List.drop_suffix _ _
  | loneHash | loneAt | backslash | lone => exact List.suffix_rfl

theorem token_suffix (rangesAllowed : Bool) (c : Char) (rest : List Char) :
    (token rangesAllowed c rest).rest <:+ rest := by
  rw [token_eq_scan]
  rcases Start.of_eq_range_or rangesAllowed c rest with ⟨-, hrange⟩ | heq
  · rw [hrange]
    exact (unicodeRange_suffix _).trans (List.drop_suffix _ _)
  · rw [heq]
    exact scan_suffix (Start.chosen_of c rest)

end Lexer

end StyleValue
