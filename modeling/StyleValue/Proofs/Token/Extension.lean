import StyleValue.Proofs.Token.Boundary.Token

/-!
# Scanning with more text at the end

A scanner that stops without an error stops for a reason that lies in the text it has seen, or in
the end of the text. If inert text is added at the end, the reason stays, and the added text is left
over together with what was left before.
-/

set_option autoImplicit false

namespace StyleValue

namespace Scanned

variable {α β : Type}

def extend (s : Scanned α) (more : List Char) : Scanned α := ⟨s.value, s.rest ++ more, s.reports⟩

theorem extend_map (f : α → β) (s : Scanned α) (more : List Char) :
    (s.map f).extend more = (s.extend more).map f := rfl

theorem extend_after (s : Scanned α) (reports : List LexicalError) (more : List Char) :
    (s.after reports).extend more = (s.extend more).after reports := rfl

end Scanned

namespace Lexer

section Runs

variable {p : Char → Bool} {y : List Char}

theorem any_head_append (h : y.head?.any p = false) (text : List Char) :
    (text ++ y).head?.any p = text.head?.any p := by
  cases text with
  | nil => exact h
  | cons c text => rfl

theorem takeWhile_extend (h : y.head?.any p = false) (text : List Char) :
    (text ++ y).takeWhile p = text.takeWhile p := by
  induction text with
  | nil =>
    cases y with
    | nil => rfl
    | cons c y =>
      have hc : p c = false := by simpa using h
      simp [hc]
  | cons c text ih =>
    by_cases hc : p c
    · simp [hc, ih]
    · simp [hc]

theorem dropWhile_extend (h : y.head?.any p = false) (text : List Char) :
    (text ++ y).dropWhile p = text.dropWhile p ++ y := by
  induction text with
  | nil =>
    cases y with
    | nil => rfl
    | cons c y =>
      have hc : p c = false := by simpa using h
      simp [hc]
  | cons c text ih =>
    by_cases hc : p c
    · simp [hc, ih]
    · simp [hc]

end Runs

/-- What follows a run of bounded length, with more text at the end. -/
theorem drop_run_extend (p : Char → Bool) (n : Nat) (text y : List Char) :
    (text ++ y).drop ((text.takeWhile p).take n).length =
      text.drop ((text.takeWhile p).take n).length ++ y := by
  apply List.drop_append_of_le_length
  calc ((text.takeWhile p).take n).length ≤ (text.takeWhile p).length := List.length_take_le' n _
    _ ≤ text.length := (List.takeWhile_sublist p).length_le

def Start.Fits (c : Char) (rest : List Char) : Start → Prop
  | .numeral => Numeral.starts (c :: rest)
  | .commentClose => 2 ≤ rest.length
  | .commentOpen => 3 ≤ rest.length
  | .range | .pair _ => 1 ≤ rest.length
  | _ => True

theorem Start.fits_of (rangesAllowed : Bool) (c : Char) (rest : List Char) :
    Fits c rest (of rangesAllowed c rest) := by
  have htake {marks : List Char} {n : Nat} (h : rest.take n = marks) (hn : marks.length = n) :
      n ≤ rest.length := by
    have := congrArg List.length h
    rw [List.length_take] at this
    omega
  have choose {p : Prop} [Decidable p] {s t : Start} (hs : p → Fits c rest s)
      (ht : ¬ p → Fits c rest t) : Fits c rest (if p then s else t) :=
    iteInduction (motive := Fits c rest) hs ht
  unfold of
  refine choose (fun _ => trivial) fun _ => choose (fun _ => trivial) fun _ =>
    choose (fun _ => choose (fun _ => trivial) fun _ => trivial) fun _ =>
    choose id fun _ => choose (fun hclose => ?_) fun _ => choose (fun hopen => ?_) fun _ =>
    choose (fun _ => choose (fun _ => trivial) fun _ => trivial) fun _ =>
    choose (fun hrange => ?_) fun _ => choose (fun _ => trivial) fun _ =>
    choose (fun _ => trivial) fun _ => ?_
  · exact htake (by simpa using (Bool.and_eq_true_iff.mp hclose).2) rfl
  · exact htake (by simpa using (Bool.and_eq_true_iff.mp hopen).2) rfl
  · cases rest with
    | nil => simp [continuesRange] at hrange
    | cons d rest => simp [Fits]
  · cases rest with
    | nil => trivial
    | cons d rest =>
      cases hpair : (d :: rest).head?.bind (pair? c) with
      | some kind => simp [Fits]
      | none => trivial

section Inert

variable {y : List Char} (hy : Inert y)
include hy

theorem Inert.any_eq_false {p : Char → Bool} (h : ∀ c, p c → isInert c = false) :
    y.head?.any p = false := by
  by_contra hany
  obtain ⟨c, hc, hp⟩ := (Option.any_eq_true _ _).mp (by simpa using hany)
  have := hy c hc
  simp [h c hp] at this

theorem Inert.not_ident : y.head?.any isIdent = false :=
  hy.any_eq_false fun c hc => by simp [isInert, hc]

theorem Inert.not_whitespace : y.head?.any isWhitespace = false :=
  hy.any_eq_false fun c hc => by simp [isInert, hc]

theorem Inert.not_newline : y.head?.any isNewline = false := by
  apply hy.any_eq_false
  intro c hc
  have hspace : isWhitespace c := by
    simp only [isNewline, isWhitespace, Ordinal.isWhitespace] at hc ⊢
    simp [hc]
  simp [isInert, hspace]

theorem Inert.not_hexDigit : y.head?.any isHexDigit = false :=
  hy.any_eq_false fun c hc => by simp [isInert, isIdent_of_isHexDigit hc]

theorem Inert.head_ne {c : Char} (hc : isInert c = false) : y.head? ≠ some c := by
  intro h
  simp [hy c h] at hc

theorem startsEscape_extend (text : List Char) : startsEscape (text ++ y) = startsEscape text := by
  cases text with
  | nil => exact hy.endsName.startsName.2.1
  | cons c text =>
    rw [List.cons_append, startsEscape_cons, startsEscape_cons, any_head_append hy.not_newline]

theorem startsName_extend (text : List Char) : startsName (text ++ y) = startsName text := by
  cases text with
  | nil => exact hy.endsName.startsName.2.2
  | cons c text =>
    by_cases hdash : c = '-'
    · subst hdash
      have hstart : y.head?.any (fun c => isIdentStart c || c == '-') = false := by
        apply hy.any_eq_false
        intro c hc
        rcases Bool.or_eq_true_iff.mp hc with hc | hc
        · simp [isInert, isIdent_of_isIdentStart hc]
        · obtain rfl := beq_iff_eq.mp hc
          decide
      simp only [startsName, List.cons_append, any_head_append hstart, startsEscape_extend hy]
    · rw [List.cons_append, startsName_cons _ hdash, startsName_cons _ hdash, ← List.cons_append,
        startsEscape_extend hy]

theorem escape_extend (text : List Char) (hne : text ≠ []) :
    escape (text ++ y) = (escape text).extend y := by
  obtain ⟨front, -, hsplit, hstays⟩ := escape_boundary text hne
  have hends : EndsEscape ((escape text).rest ++ y) ∨
      ((escape text).rest ++ y).head? = (escape text).rest.head? := by
    cases (escape text).rest with
    | nil => exact .inl hy.endsName.endsEscape
    | cons c rest => exact .inr rfl
  have hread := hstays _ hends
  rwa [← List.append_assoc, ← hsplit] at hread

theorem name_extend (text : List Char) (h : (name text).reports = []) :
    name (text ++ y) = (name text).extend y := by
  fun_induction name text with
  | case1 => exact name_stop hy.endsName
  | case2 c rest hc ih =>
    rw [List.cons_append, name_ident _ hc, ih h]
    rfl
  | case3 c rest hc he escaped ih =>
    have hreports := List.append_eq_nil_iff.mp h
    have hrest : rest ≠ [] := by
      rintro rfl
      simp [escaped, escape] at hreports
    have hstarts : startsEscape (c :: (rest ++ y)) := by
      rw [← List.cons_append, startsEscape_extend hy, he]
    rw [List.cons_append, name, if_neg hc, if_pos hstarts]
    simp only [escape_extend hy rest hrest]
    rw [Scanned.extend_after, Scanned.extend_map, ← ih hreports.2]
    rfl
  | case4 c rest hc he =>
    rw [List.cons_append, name, if_neg hc, if_neg (by rwa [← List.cons_append,
      startsEscape_extend hy])]
    rfl

omit hy in
theorem url_extend (text : List Char) (h : (url text).reports = [])
    (hvalue : (url text).value ≠ none) (more : List Char) : url (text ++ more) = (url text).extend more := by
  obtain ⟨front, hsplit, hstays⟩ := url_boundary text fun _ => ⟨h, hvalue⟩
  have hread := hstays ((url text).rest ++ more)
  rwa [← List.append_assoc, ← hsplit] at hread

omit hy in
theorem string_value_ne_none (quote : Char) (text : List Char)
    (h : (string quote text).reports = []) : (string quote text).value ≠ none := by
  fun_induction string quote text with
  | case1 => simp
  | case2 => simp
  | case3 => simp at h
  | case4 => simp
  | case5 d others hnewline hquote hslash ih => exact ih h
  | case6 d others hnewline escaped hquote hslash ih =>
    have := ih (List.append_eq_nil_iff.mp h).2
    simpa using this
  | case7 c rest hquote hnewline hslash ih =>
    have := ih h
    simpa using this

omit hy in
theorem string_extend (quote : Char) (text : List Char) (h : (string quote text).reports = [])
    (more : List Char) : string quote (text ++ more) = (string quote text).extend more := by
  obtain ⟨front, hsplit, -, hstays⟩ := string_boundary quote text fun _ => h
  have hread := hstays ((string quote text).rest ++ more) (.inl (string_value_ne_none quote text h))
  rwa [← List.append_assoc, ← hsplit] at hread

theorem identLike_extend (text : List Char) (h : (identLike text).reports = [])
    (hvalue : (identLike text).value ≠ .badUrl) :
    identLike (text ++ y) = (identLike text).extend y := by
  by_cases hparen : (name text).rest.head? = some '('
  · obtain ⟨rest, hrest⟩ := List.head?_eq_some_iff.mp hparen
    have hname : name text = ⟨(name text).value, '(' :: rest, (name text).reports⟩ := by
      rw [← hrest]
    rw [identLike_function hname] at h hvalue ⊢
    have hreports : (name text).reports = [] := by
      split_ifs at h
      · exact (List.append_eq_nil_iff.mp h).1
      · exact h
    have hextended : name (text ++ y) =
        ⟨(name text).value, '(' :: (rest ++ y), (name text).reports⟩ := by
      rw [name_extend hy text hreports, hname]
      rfl
    rw [identLike_function hextended]
    split_ifs at h hvalue ⊢ with hurl
    · have hclosed : (url rest).value ≠ none := by
        intro hnone
        simp [urlKind, hnone] at hvalue
      rw [url_extend rest (List.append_eq_nil_iff.mp h).2 hclosed]
      rfl
    · rfl
  · rw [identLike_ident hparen] at h ⊢
    have hextended := name_extend hy text h
    have hparen' : (name (text ++ y)).rest.head? ≠ some '(' := by
      rw [hextended, Scanned.extend]
      cases hrest : (name text).rest with
      | nil => exact hy.head_ne (by decide)
      | cons c rest => rwa [hrest] at hparen
    rw [identLike_ident hparen', hextended]
    rfl

theorem starts_extend (text : List Char) :
    Numeral.starts (text ++ y) = Numeral.starts text := by
  rw [Bool.eq_iff_iff]
  constructor
  · intro h
    have := Numeral.starts_before hy text [] h
    rwa [List.append_nil] at this
  · intro h
    obtain ⟨spelling, hspelling, hsplit, -⟩ := Numeral.exists_spelling h
    rw [hsplit, List.append_assoc]
    exact Numeral.starts_spelling hspelling _

theorem scan_extend (text : List Char) (h : Numeral.starts text) :
    Numeral.scan (text ++ y) = ((Numeral.scan text).1, (Numeral.scan text).2 ++ y) := by
  obtain ⟨spelling, hspelling, hsplit, hends⟩ := Numeral.exists_spelling h
  have hread := Numeral.scan_spelling hspelling
    (Numeral.ends_before hy (Numeral.scan text).2 [] (by rwa [List.append_nil]))
  rwa [← List.append_assoc, ← hsplit] at hread

theorem numeric_extend (text : List Char) (hstarts : Numeral.starts text)
    (h : (numeric text).reports = []) : numeric (text ++ y) = (numeric text).extend y := by
  have hextended := scan_extend hy text hstarts
  generalize hscanned : Numeral.scan text = scanned at hextended
  obtain ⟨numeral, rest⟩ := scanned
  cases hvalue : numeral.value with
  | error fault =>
    rw [numeric_error hscanned hvalue, numeric_error hextended hvalue]
    rfl
  | ok x =>
    by_cases hname : startsName rest
    · rw [numeric_dimension hscanned hvalue hname] at h ⊢
      rw [numeric_dimension hextended hvalue (by rwa [startsName_extend hy]), name_extend hy rest h]
      rfl
    by_cases hpercent : rest.head? = some '%'
    · obtain ⟨others, rfl⟩ := List.head?_eq_some_iff.mp hpercent
      rw [numeric_percentage hscanned hvalue, numeric_percentage hextended hvalue]
      rfl
    · have hpercent' : (rest ++ y).head? ≠ some '%' := by
        cases rest with
        | nil => exact hy.head_ne (by decide)
        | cons c rest => exact hpercent
      rw [numeric_number hscanned hvalue (by simpa using hname) hpercent,
        numeric_number hextended hvalue (by simpa [startsName_extend hy] using hname) hpercent']
      rfl

theorem continuesRange_extend (hmark : y.head? ≠ some '?') (rest : List Char) :
    continuesRange (rest ++ y) = continuesRange rest := by
  cases rest with
  | nil =>
    cases y with
    | nil => rfl
    | cons c y =>
      have hplus : c ≠ '+' := by simpa using hy.head_ne (c := '+') (by decide)
      unfold continuesRange
      split
      · simp_all
      · rfl
  | cons c rest =>
    by_cases hplus : c = '+'
    · subst hplus
      cases rest with
      | nil =>
        cases y with
        | nil => rfl
        | cons d y =>
          have hhex : isHexDigit d = false := by simpa using hy.not_hexDigit
          have hd : d ≠ '?' := by simpa using hmark
          simp [continuesRange, hhex, hd]
      | cons d rest => rfl
    · unfold continuesRange
      split
      · simp_all
      · split
        · simp_all
        · rfl

theorem unicodeRange_extend (hmark : y.head? ≠ some '?') (text : List Char) :
    unicodeRange (text ++ y) = (unicodeRange text).extend y := by
  have hquestion : y.head?.any (· == '?') = false := by
    cases y with
    | nil => rfl
    | cons c y => simpa using hmark
  have hdash (rest : List Char) : (rest ++ y).head? = some '-' → rest.head? = some '-' := by
    cases rest with
    | nil => exact fun h => absurd h (hy.head_ne (by decide))
    | cons c rest => exact id
  unfold unicodeRange
  simp only [takeWhile_extend hy.not_hexDigit, takeWhile_extend hquestion, drop_run_extend]
  generalize (text.takeWhile isHexDigit).take 6 = digits
  generalize ((text.drop digits.length).takeWhile (· == '?')).take (6 - digits.length) = marks
  generalize (text.drop digits.length).drop marks.length = rest
  by_cases hmarks : marks.isEmpty
  · simp only [hmarks, if_true]
    by_cases hhead : rest.head? = some '-'
    · obtain ⟨others, rfl⟩ := List.head?_eq_some_iff.mp hhead
      simp only [List.cons_append, takeWhile_extend hy.not_hexDigit, drop_run_extend]
      split_ifs
      · rfl
      · rfl
    · have hextended := mt (hdash rest) hhead
      split
      · simp_all
      · split
        · simp_all
        · rfl
  · simp only [hmarks, Bool.false_eq_true, if_false]
    rfl

theorem take_extend (text marks : List Char) (hmarks : marks.all (!isInert ·)) :
    (text ++ y).take marks.length = marks ↔ text.take marks.length = marks := by
  constructor
  · intro h
    have := take_before hy [] marks (by simpa using hmarks) text h
    rwa [List.append_nil] at this
  · intro h
    have hlength : marks.length ≤ text.length := by
      have := congrArg List.length h
      rw [List.length_take] at this
      omega
    rwa [List.take_append_of_le_length hlength]

theorem pair_extend (c : Char) (rest : List Char) :
    (rest ++ y).head?.bind (pair? c) = rest.head?.bind (pair? c) := by
  cases rest with
  | cons d rest => rfl
  | nil =>
    cases y with
    | nil => rfl
    | cons d y => exact pair?_inert ((inert_cons d y).mp hy)

theorem Start.of_extend (hmark : y.head? ≠ some '?') (rangesAllowed : Bool) (c : Char)
    (rest : List Char) :
    Start.of rangesAllowed c (rest ++ y) = Start.of rangesAllowed c rest := by
  have hclose : decide ((rest ++ y).take 2 = ['-', '>']) = decide (rest.take 2 = ['-', '>']) :=
    decide_eq_decide.mpr (take_extend hy rest ['-', '>'] rfl)
  have hopen : decide ((rest ++ y).take 3 = ['!', '-', '-']) =
      decide (rest.take 3 = ['!', '-', '-']) :=
    decide_eq_decide.mpr (take_extend hy rest ['!', '-', '-'] rfl)
  unfold Start.of
  simp only [← List.cons_append, any_head_append hy.not_ident, startsEscape_extend hy,
    starts_extend hy, hclose, hopen, startsName_extend hy, continuesRange_extend hy hmark,
    pair_extend hy]

theorem Start.scan_extend (hmark : y.head? ≠ some '?') {c : Char} {rest : List Char}
    {start : Start} (hfits : Fits c rest start) (h : (start.scan c rest).reports = [])
    (hurl : (start.scan c rest).value ≠ .ok .badUrl) :
    start.scan c (rest ++ y) = (start.scan c rest).extend y := by
  cases start with
  | whitespace =>
    simp only [scan, dropWhile_extend hy.not_whitespace]
    rfl
  | quote =>
    simp only [scan, string_extend c rest h]
    rfl
  | hash =>
    simp only [scan, name_extend hy rest h, startsName_extend hy]
    rfl
  | numeral => exact numeric_extend hy (c :: rest) hfits h
  | commentClose =>
    simp only [scan, List.drop_append_of_le_length hfits]
    rfl
  | commentOpen =>
    simp only [scan, List.drop_append_of_le_length hfits]
    rfl
  | atKeyword =>
    simp only [scan, name_extend hy rest h]
    rfl
  | range =>
    simp only [scan, List.drop_append_of_le_length hfits, unicodeRange_extend hy hmark]
    rfl
  | name =>
    have hvalue : (identLike (c :: rest)).value ≠ .badUrl := fun hbad => hurl (congrArg _ hbad)
    have hextended := identLike_extend hy (c :: rest) h hvalue
    simp only [scan, ← List.cons_append, hextended]
    rfl
  | backslash => simp [scan] at h
  | pair kind =>
    simp only [scan, List.drop_append_of_le_length hfits]
    rfl
  | lone kind => rfl

theorem token_extend (hmark : y.head? ≠ some '?') {rangesAllowed : Bool} {c : Char}
    {rest : List Char} (h : (token rangesAllowed c rest).reports = [])
    (hurl : (token rangesAllowed c rest).value ≠ .ok .badUrl) :
    token rangesAllowed c (rest ++ y) = (token rangesAllowed c rest).extend y := by
  rw [token_eq_scan] at h hurl
  rw [token_eq_scan, Start.of_extend hy hmark, token_eq_scan,
    Start.scan_extend hy hmark (Start.fits_of rangesAllowed c rest) h hurl]

end Inert

end Lexer

end StyleValue
