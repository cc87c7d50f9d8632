import StyleValue.Proofs.Token.Boundary.Name
import StyleValue.Token.Quotation

/-!
# Where strings and URLs end

A string or a URL that ends before its text does ends with a character of its own, a closing quote
or parenthesis, so that nothing that follows can change it. Only a newline, which breaks a string,
is left for what follows.
-/

set_option autoImplicit false

namespace StyleValue

namespace Lexer

section Equations

variable {quote c : Char} (rest : List Char)

theorem string_close : string quote (quote :: rest) = ⟨some [], rest, []⟩ := by
  rw [string.eq_def]
  simp

theorem string_broken (hquote : c ≠ quote) (hnewline : isNewline c) :
    string quote (c :: rest) = ⟨none, c :: rest, [.newlineInString]⟩ := by
  rw [string.eq_def]
  simp [hquote, hnewline]

theorem string_joined (hquote : '\\' ≠ quote) (hnewline : isNewline c) :
    string quote ('\\' :: c :: rest) = string quote rest := by
  have hslash : isNewline '\\' = false := by decide
  rw [string.eq_def]
  simp [hquote, hslash, hnewline]

theorem string_escape (hquote : '\\' ≠ quote) (hne : rest ≠ [])
    (hnewline : rest.head?.any isNewline = false) :
    string quote ('\\' :: rest) =
      ((string quote (escape rest).rest).map
        (Option.map ((escape rest).value :: ·))).after (escape rest).reports := by
  have hslash : isNewline '\\' = false := by decide
  obtain ⟨d, others, rfl⟩ := List.exists_cons_of_ne_nil hne
  have hd : isNewline d = false := by simpa using hnewline
  rw [string.eq_def]
  simp [hquote, hslash, hd]

theorem string_char (hquote : c ≠ quote) (hnewline : isNewline c = false) (hslash : c ≠ '\\') :
    string quote (c :: rest) = (string quote rest).map (Option.map (c :: ·)) := by
  rw [string.eq_def]
  simp [hquote, hslash, hnewline]

end Equations

theorem string_boundary (quote : Char) (text : List Char)
    (h : (string quote text).rest = [] → (string quote text).reports = []) :
    ∃ p, text = p ++ (string quote text).rest ∧
      (p = [] → (string quote text).value = none) ∧
      ∀ y, ((string quote text).value ≠ none ∨ y.head? = (string quote text).rest.head?) →
        string quote (p ++ y) = ⟨(string quote text).value, y, (string quote text).reports⟩ := by
  fun_induction string quote text with
  | case1 => simp at h
  | case2 rest => exact ⟨[quote], rfl, by simp, fun y _ => string_close y⟩
  | case3 c rest hquote hnewline =>
    refine ⟨[], rfl, fun _ => rfl, ?_⟩
    intro y hy
    obtain ⟨others, rfl⟩ : ∃ others, y = c :: others :=
      List.head?_eq_some_iff.mp (by simpa using hy)
    exact string_broken others hquote hnewline
  | case4 => simp at h
  | case5 d others hnewline hquote _ ih =>
    obtain ⟨p, hsplit, hempty, hstays⟩ := ih h
    refine ⟨'\\' :: d :: p, congrArg ('\\' :: d :: ·) hsplit, by simp, ?_⟩
    intro y hy
    rw [List.cons_append, List.cons_append, string_joined _ hquote hnewline]
    exact hstays y hy
  | case6 d others hnewline escaped hquote _ ih =>
    obtain ⟨p, hsplit, hempty, hstays⟩ := ih fun hr => (List.append_eq_nil_iff.mp (h hr)).2
    obtain ⟨front, hfront, hcut, hescape⟩ := escape_then (d :: others) (by simp) hsplit
    refine ⟨'\\' :: (front ++ p), ?_, by simp, ?_⟩
    · rw [List.cons_append, List.append_assoc]
      exact congrArg ('\\' :: ·) hcut
    · intro y hy
      have hinner : (string quote escaped.rest).value ≠ none ∨
          y.head? = (string quote escaped.rest).rest.head? := by simpa using hy
      have hcont : p ≠ [] ∨ EndsEscape y ∨ y.head? = (string quote escaped.rest).rest.head? := by
        rcases hinner with hvalue | hhead
        · exact .inl fun hp => hvalue (hempty hp)
        · exact .inr (.inr hhead)
      have hhead : (front ++ (p ++ y)).head?.any isNewline = false := by
        rw [head?_front hcut hfront]
        simpa using hnewline
      rw [List.cons_append, List.append_assoc,
        string_escape _ hquote (by simp [hfront]) hhead,
        hescape y hcont, hstays y hinner]
      rfl
  | case7 c rest hquote hnewline hslash ih =>
    obtain ⟨p, hsplit, hempty, hstays⟩ := ih h
    refine ⟨c :: p, congrArg (c :: ·) hsplit, by simp, ?_⟩
    intro y hy
    rw [List.cons_append, string_char _ hquote (by simpa using hnewline) hslash]
    rw [hstays y (by simpa using hy)]
    rfl

theorem startsEscape_of_head {c : Char} {s t : List Char} (h : s.head? = t.head?) :
    startsEscape (c :: s) = startsEscape (c :: t) := by
  rw [startsEscape_cons, startsEscape_cons, h]

theorem remnants_boundary (text : List Char) (h : (remnants text).rest ≠ []) :
    ∃ p, p ≠ [] ∧ text = p ++ (remnants text).rest ∧
      ∀ y, remnants (p ++ y) = ⟨(), y, (remnants text).reports⟩ := by
  fun_induction remnants text with
  | case1 => simp at h
  | case2 rest => exact ⟨[')'], by simp, rfl, fun y => by simp [remnants]⟩
  | case3 c rest hclose hstarts escaped ih =>
    have hrest : rest ≠ [] := by
      rintro rfl
      simp [escaped, escape, remnants] at h
    obtain ⟨p, hp, hsplit, hstays⟩ := ih h
    obtain ⟨front, hfront, hcut, hescape⟩ := escape_then rest hrest hsplit
    refine ⟨c :: (front ++ p), by simp, ?_, ?_⟩
    · rw [List.cons_append, List.append_assoc]
      exact congrArg (c :: ·) hcut
    · intro y
      have hhead := head?_front hcut hfront (p ++ y)
      rw [List.cons_append, List.append_assoc, remnants, if_neg hclose,
        if_pos ((startsEscape_of_head hhead).trans hstarts)]
      simp only [hescape y (.inl hp), hstays y]
      rfl
  | case4 c rest hclose hstarts ih =>
    obtain ⟨p, hp, hsplit, hstays⟩ := ih h
    refine ⟨c :: p, by simp, congrArg (c :: ·) hsplit, ?_⟩
    intro y
    have hhead := head?_front hsplit hp y
    rw [List.cons_append, remnants, if_neg hclose,
      if_neg (by rwa [startsEscape_of_head hhead]), hstays y]

theorem badUrl_boundary (reports : List LexicalError) (text : List Char)
    (h : (badUrl reports text).rest ≠ []) :
    ∃ p, p ≠ [] ∧ text = p ++ (badUrl reports text).rest ∧
      ∀ y, badUrl reports (p ++ y) = ⟨none, y, (badUrl reports text).reports⟩ := by
  obtain ⟨p, hp, hsplit, hstays⟩ := remnants_boundary text h
  refine ⟨p, hp, hsplit, ?_⟩
  intro y
  rw [badUrl, hstays y]
  rfl

theorem exists_run_cons {p : Char → Bool} {text others : List Char} {c : Char}
    (h : text.dropWhile p = c :: others) :
    ∃ run, text = run ++ c :: others ∧ (∀ d ∈ run, p d) ∧ p c = false := by
  obtain ⟨run, hsplit, hrun, hstop⟩ := exists_run p text
  rw [h] at hsplit hstop
  exact ⟨run, hsplit, hrun, hstop c rfl⟩

/-- White space before the end of a URL, and the first character after it. -/
theorem unquotedUrl_space {c d : Char} {run : List Char} (hclose : c ≠ ')')
    (hc : isWhitespace c) (hrun : ∀ c ∈ run, isWhitespace c) (hd : isWhitespace d = false)
    (others : List Char) :
    unquotedUrl (c :: (run ++ d :: others)) =
      if d = ')' then ⟨some [], others, []⟩ else badUrl [] (d :: others) := by
  have hdrop : (run ++ d :: others).dropWhile isWhitespace = d :: others :=
    dropWhile_append_boundary hrun (by simpa using hd)
  rw [unquotedUrl.eq_def]
  simp only [hclose, hc, hdrop, if_true, if_false]

theorem unquotedUrl_boundary (text : List Char)
    (h : (unquotedUrl text).rest = [] →
      (unquotedUrl text).reports = [] ∧ (unquotedUrl text).value ≠ none) :
    ∃ p, p ≠ [] ∧ text = p ++ (unquotedUrl text).rest ∧ ∀ y,
      unquotedUrl (p ++ y) = ⟨(unquotedUrl text).value, y, (unquotedUrl text).reports⟩ := by
  fun_induction unquotedUrl text with
  | case1 => simp at h
  | case2 rest => exact ⟨[')'], by simp, rfl, fun y => by simp [unquotedUrl]⟩
  | case3 => simp at h
  | case4 c rest hclose hc others hdrop =>
    obtain ⟨run, rfl, hrun, hd⟩ := exists_run_cons hdrop
    refine ⟨c :: (run ++ [')']), by simp, by simp, ?_⟩
    intro y
    have hclosed := unquotedUrl_space hclose hc hrun hd y
    simpa using hclosed
  | case5 c rest hclose hc d others hdrop hd' =>
    obtain ⟨run, rfl, hrun, hd⟩ := exists_run_cons hdrop
    obtain ⟨p, hp, hsplit, hstays⟩ :=
      badUrl_boundary [] (d :: others) fun hr => (h hr).2 rfl
    obtain ⟨p, rfl, -⟩ :=
      (List.cons_eq_append_iff.mp hsplit).resolve_left fun hnil => hp hnil.1
    refine ⟨c :: (run ++ d :: p), by simp, ?_, ?_⟩
    · rw [List.cons_append, List.append_assoc, ← hsplit]
    · intro y
      rw [List.cons_append, List.append_assoc, List.cons_append,
        unquotedUrl_space hclose hc hrun hd, if_neg hd']
      exact hstays y
  | case6 c rest hclose hspace hbad =>
    obtain ⟨p, hp, hsplit, hstays⟩ := badUrl_boundary _ rest fun hr => (h hr).2 rfl
    refine ⟨c :: p, by simp, congrArg (c :: ·) hsplit, ?_⟩
    intro y
    rw [List.cons_append, unquotedUrl, if_neg hclose, if_neg hspace, if_pos hbad, hstays y]
    rfl
  | case7 rest escaped hclose hspace hbad hstarts ih =>
    have hrest : rest ≠ [] := by
      rintro rfl
      simp [escaped, escape, unquotedUrl] at h
    obtain ⟨p, hp, hsplit, hstays⟩ := ih fun hr => by
      obtain ⟨hreports, hvalue⟩ := h hr
      exact ⟨(List.append_eq_nil_iff.mp hreports).2, fun hnone => hvalue (by simp [hnone])⟩
    obtain ⟨front, hfront, hcut, hescape⟩ := escape_then rest hrest hsplit
    refine ⟨'\\' :: (front ++ p), by simp, ?_, ?_⟩
    · rw [List.cons_append, List.append_assoc]
      exact congrArg ('\\' :: ·) hcut
    · intro y
      have hhead := head?_front hcut hfront (p ++ y)
      rw [List.cons_append, List.append_assoc, unquotedUrl, if_neg hclose, if_neg hspace,
        if_neg hbad, if_pos rfl, if_pos ((startsEscape_of_head hhead).trans hstarts)]
      simp only [hescape y (.inl hp), hstays y]
      rfl
  | case8 rest hclose hspace hbad hstarts =>
    obtain ⟨p, hp, hsplit, hstays⟩ := badUrl_boundary _ rest fun hr => (h hr).2 rfl
    refine ⟨'\\' :: p, by simp, congrArg ('\\' :: ·) hsplit, ?_⟩
    intro y
    have hhead := head?_front hsplit hp y
    rw [List.cons_append, unquotedUrl, if_neg hclose, if_neg hspace, if_neg hbad, if_pos rfl,
      if_neg (by rwa [startsEscape_of_head hhead]), hstays y]
    rfl
  | case9 c rest hclose hspace hbad hslash ih =>
    obtain ⟨p, hp, hsplit, hstays⟩ := ih fun hr => by
      obtain ⟨hreports, hvalue⟩ := h hr
      exact ⟨hreports, fun hnone => hvalue (by simp [hnone])⟩
    refine ⟨c :: p, by simp, congrArg (c :: ·) hsplit, ?_⟩
    intro y
    rw [List.cons_append, unquotedUrl, if_neg hclose, if_neg hspace, if_neg hbad,
      if_neg hslash, hstays y]
    rfl

/-- A string in a URL, white space after it, and the first character that is neither. -/
theorem quotedUrl_string {quote c : Char} {text run others value : List Char}
    {reports : List LexicalError} (hrun : ∀ c ∈ run, isWhitespace c)
    (hc : isWhitespace c = false)
    (h : string quote text = ⟨some value, run ++ c :: others, reports⟩) :
    quotedUrl quote text =
      if c = ')' then ⟨some value, others, reports⟩
      else badUrl (reports ++ [.inputAfterQuotedUrl]) (c :: others) := by
  have hdrop : (run ++ c :: others).dropWhile isWhitespace = c :: others :=
    dropWhile_append_boundary hrun (by simpa using hc)
  simp only [quotedUrl, h, hdrop]

theorem quotedUrl_broken {quote : Char} {text : List Char}
    (h : (string quote text).value = none) :
    quotedUrl quote text =
      badUrl ((string quote text).reports ++ [.inputAfterQuotedUrl]) (string quote text).rest := by
  simp only [quotedUrl, h]

theorem quotedUrl_boundary (quote : Char) (text : List Char)
    (h : (quotedUrl quote text).rest = [] →
      (quotedUrl quote text).reports = [] ∧ (quotedUrl quote text).value ≠ none) :
    ∃ p, text = p ++ (quotedUrl quote text).rest ∧ ∀ y, quotedUrl quote (p ++ y) =
      ⟨(quotedUrl quote text).value, y, (quotedUrl quote text).reports⟩ := by
  cases hvalue : (string quote text).value with
  | none =>
    rw [quotedUrl_broken hvalue] at h ⊢
    obtain ⟨p, hp, hsplit, hstays⟩ := badUrl_boundary _ _ fun hr => (h hr).2 rfl
    obtain ⟨front, hcut, -, hstring⟩ := string_boundary quote text fun hr => by
      rw [hr] at hsplit
      exact absurd (List.append_eq_nil_iff.mp hsplit.symm).1 hp
    refine ⟨front ++ p, by rw [List.append_assoc, ← hsplit, ← hcut], ?_⟩
    intro y
    have hfront := hstring (p ++ y) (.inr (head?_front hsplit hp y))
    rw [List.append_assoc, quotedUrl_broken (by rw [hfront, hvalue]), hfront]
    exact hstays y
  | some value =>
    cases hdrop : (string quote text).rest.dropWhile isWhitespace with
    | nil => simp [quotedUrl, hvalue, hdrop] at h
    | cons c others =>
      obtain ⟨run, hrest, hrun, hc⟩ := exists_run_cons hdrop
      obtain ⟨front, hcut, -, hstring⟩ := string_boundary quote text fun hr => by simp [hr] at hrest
      have hfront (y : List Char) := hstring y (.inl (by simp [hvalue]))
      rw [hvalue] at hfront
      have hscanned : string quote text =
          ⟨some value, run ++ c :: others, (string quote text).reports⟩ := by
        rw [← hrest, ← hvalue]
      rw [quotedUrl_string hrun hc hscanned] at h ⊢
      by_cases hclose : c = ')'
      · subst hclose
        rw [if_pos rfl]
        refine ⟨front ++ (run ++ [')']), by rw [hcut, hrest]; simp, ?_⟩
        intro y
        rw [List.append_assoc, List.append_assoc, List.singleton_append,
          quotedUrl_string hrun hc (hfront _), if_pos rfl]
      · rw [if_neg hclose] at h ⊢
        obtain ⟨p, hp, hsplit, hstays⟩ := badUrl_boundary _ _ fun hr => (h hr).2 rfl
        obtain ⟨p, rfl, -⟩ :=
          (List.cons_eq_append_iff.mp hsplit).resolve_left fun hnil => hp hnil.1
        refine ⟨front ++ (run ++ c :: p), ?_, ?_⟩
        · rw [List.append_assoc, List.append_assoc, ← hsplit, ← hrest, ← hcut]
        · intro y
          rw [List.append_assoc, List.append_assoc, List.cons_append,
            quotedUrl_string hrun hc (hfront _), if_neg hclose]
          exact hstays y

theorem url_space {c : Char} {run : List Char} (hrun : ∀ c ∈ run, isWhitespace c)
    (hc : isWhitespace c = false) (others : List Char) :
    url (run ++ c :: others) =
      if c = '"' || c = '\'' then quotedUrl c others else unquotedUrl (c :: others) := by
  have hdrop : (run ++ c :: others).dropWhile isWhitespace = c :: others :=
    dropWhile_append_boundary hrun (by simpa using hc)
  simp only [url, hdrop]

/-- A URL ends with its closing parenthesis, unless the text ends before it or it is none. -/
theorem url_boundary (text : List Char)
    (h : (url text).rest = [] → (url text).reports = [] ∧ (url text).value ≠ none) :
    ∃ p, text = p ++ (url text).rest ∧ ∀ y,
      url (p ++ y) = ⟨(url text).value, y, (url text).reports⟩ := by
  cases hdrop : text.dropWhile isWhitespace with
  | nil => simp [url, hdrop, unquotedUrl] at h
  | cons c others =>
    obtain ⟨run, rfl, hrun, hc⟩ := exists_run_cons hdrop
    rw [url_space hrun hc] at h ⊢
    by_cases hquote : (c = '"' || c = '\'') = true
    · rw [if_pos hquote] at h ⊢
      obtain ⟨p, hsplit, hstays⟩ := quotedUrl_boundary c others h
      refine ⟨run ++ c :: p, ?_, ?_⟩
      · rw [List.append_assoc, List.cons_append, ← hsplit]
      · intro y
        rw [List.append_assoc, List.cons_append, url_space hrun hc, if_pos hquote]
        exact hstays y
    · rw [if_neg hquote] at h ⊢
      obtain ⟨p, hp, hsplit, hstays⟩ := unquotedUrl_boundary (c :: others) h
      obtain ⟨p, rfl, -⟩ :=
        (List.cons_eq_append_iff.mp hsplit).resolve_left fun hnil => hp hnil.1
      refine ⟨run ++ c :: p, ?_, ?_⟩
      · rw [List.append_assoc, ← hsplit]
      · intro y
        rw [List.append_assoc, List.cons_append, url_space hrun hc, if_neg hquote]
        exact hstays y

end Lexer

end StyleValue
