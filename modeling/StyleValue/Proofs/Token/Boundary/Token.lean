import StyleValue.Proofs.Token.Boundary.Choice
import StyleValue.Proofs.Token.Boundary.Quotation

/-!
# Where tokens end

A token stays the same when what follows it is replaced by text that continues no token. Two kinds
are exceptions: a string that a newline breaks, and a backslash before a newline.
-/

set_option autoImplicit false

namespace StyleValue

namespace Lexer

def urlKind : Option (List Char) → TokenKind
  | some value => .url (String.ofList value)
  | none => .badUrl

theorem identLike_function {text value rest : List Char} {reports : List LexicalError}
    (h : name text = ⟨value, '(' :: rest, reports⟩) :
    identLike text =
      if lowercase (String.ofList value) = "url" then ((url rest).map urlKind).after reports
      else ⟨.function (String.ofList value), rest, reports⟩ := by
  simp only [identLike, h, Scanned.map]
  rfl

theorem identLike_ident {text : List Char} (h : (name text).rest.head? ≠ some '(') :
    identLike text = (name text).map fun value => .ident (String.ofList value) := by
  unfold identLike
  dsimp only
  split
  · rename_i hrest
    simp only [Scanned.rest_map] at hrest
    simp [hrest] at h
  · rfl

theorem endsName_parenthesis (text : List Char) : EndsName ('(' :: text) := by
  intro c hc
  obtain rfl : '(' = c := by simpa using hc
  decide

theorem identLike_boundary (text : List Char)
    (h : (identLike text).rest = [] →
      (identLike text).reports = [] ∧ (identLike text).value ≠ .badUrl) :
    ∃ p, text = p ++ (identLike text).rest ∧ ∀ y, Inert y →
      identLike (p ++ y) = ⟨(identLike text).value, y, (identLike text).reports⟩ ∧
        startsName (p ++ y) = startsName text := by
  by_cases hparen : (name text).rest.head? = some '('
  · obtain ⟨rest, hrest⟩ := List.head?_eq_some_iff.mp hparen
    obtain ⟨front, hcut, hname⟩ := name_boundary text fun hnil => by simp [hnil] at hrest
    have hfront (y : List Char) := hname ('(' :: y) (endsName_parenthesis y)
    rw [hrest] at hcut
    rw [identLike_function (by rw [← hrest])] at h ⊢
    split_ifs at h ⊢ with hurl
    · obtain ⟨p, hsplit, hstays⟩ := url_boundary rest fun hnil => by
        obtain ⟨hreports, hvalue⟩ := h hnil
        refine ⟨(List.append_eq_nil_iff.mp hreports).2, ?_⟩
        intro hnone
        simp [urlKind, hnone] at hvalue
      refine ⟨front ++ '(' :: p, ?_, ?_⟩
      · rw [List.append_assoc, List.cons_append, hcut]
        exact congrArg (front ++ '(' :: ·) hsplit
      · intro y hy
        obtain ⟨hscan, hstart⟩ := hfront (p ++ y)
        rw [List.append_assoc, List.cons_append, identLike_function hscan, if_pos hurl, hstays y]
        exact ⟨rfl, hstart.name⟩
    · refine ⟨front ++ ['('], by rw [List.append_assoc]; exact hcut, ?_⟩
      intro y hy
      obtain ⟨hscan, hstart⟩ := hfront y
      rw [List.append_assoc, List.singleton_append, identLike_function hscan, if_neg hurl]
      exact ⟨rfl, hstart.name⟩
  · rw [identLike_ident hparen] at h ⊢
    obtain ⟨p, hsplit, hname⟩ := name_boundary text fun hnil => (h hnil).1
    refine ⟨p, hsplit, ?_⟩
    intro y hy
    obtain ⟨hscan, hstart⟩ := hname y hy.endsName
    have hparen : (name (p ++ y)).rest.head? ≠ some '(' := by
      rw [hscan]
      intro hhead
      exact absurd (hy _ hhead) (by decide)
    rw [identLike_ident hparen, hscan]
    exact ⟨rfl, hstart.name⟩

section Numeric

variable {text rest : List Char} {numeral : Numeral} {x : Number}

theorem numeric_error {fault : Fault} (hscan : Numeral.scan text = (numeral, rest))
    (hvalue : numeral.value = .error fault) : numeric text = ⟨.error fault, rest, []⟩ := by
  simp only [numeric, hscan, hvalue]

theorem numeric_dimension (hscan : Numeral.scan text = (numeral, rest))
    (hvalue : numeral.value = .ok x) (hname : startsName rest) :
    numeric text = (name rest).map fun unit => .ok (.dimension x (String.ofList unit)) := by
  simp only [numeric, hscan, hvalue, hname, if_true]

theorem numeric_percentage (hscan : Numeral.scan text = (numeral, '%' :: rest))
    (hvalue : numeral.value = .ok x) : numeric text = ⟨.ok (.percentage x), rest, []⟩ := by
  simp only [numeric, hscan, hvalue, not_startsName (c := '%') (by decide) (by decide)]
  rfl

theorem numeric_number (hscan : Numeral.scan text = (numeral, rest))
    (hvalue : numeral.value = .ok x) (hname : startsName rest = false)
    (hpercent : rest.head? ≠ some '%') : numeric text = ⟨.ok (.number x), rest, []⟩ := by
  simp only [numeric, hscan, hvalue, hname, Bool.false_eq_true, if_false]
  split
  · simp at hpercent
  · rfl

end Numeric

theorem numeric_boundary (text : List Char) (hstarts : Numeral.starts text)
    (h : (numeric text).rest = [] → (numeric text).reports = []) :
    ∃ p, text = p ++ (numeric text).rest ∧ ∀ y, Inert y →
      numeric (p ++ y) = ⟨(numeric text).value, y, (numeric text).reports⟩ ∧
        Numeral.starts (p ++ y) := by
  obtain ⟨spelling, hspelling, hcut, hends⟩ := Numeral.exists_spelling hstarts
  generalize hscanned : Numeral.scan text = scanned at hspelling hcut hends
  obtain ⟨numeral, after⟩ := scanned
  have hstays (front rest y : List Char) (hafter : after = front ++ rest) (hy : Inert y) :
      Numeral.scan (spelling ++ (front ++ y)) = (numeral, front ++ y) :=
    Numeral.scan_spelling hspelling (Numeral.ends_before hy front rest (hafter ▸ hends))
  cases hvalue : numeral.value with
  | error fault =>
    rw [numeric_error hscanned hvalue]
    refine ⟨spelling, hcut, ?_⟩
    intro y hy
    exact ⟨numeric_error (hstays [] after y rfl hy) hvalue, Numeral.starts_spelling hspelling _⟩
  | ok x =>
    by_cases hname : startsName after
    · rw [numeric_dimension hscanned hvalue hname] at h ⊢
      obtain ⟨p, hsplit, hunit⟩ := name_boundary after h
      refine ⟨spelling ++ p, ?_, ?_⟩
      · rw [List.append_assoc, hcut]
        exact congrArg (spelling ++ ·) hsplit
      · intro y hy
        obtain ⟨hscan, hstart⟩ := hunit y hy.endsName
        rw [List.append_assoc,
          numeric_dimension (hstays p _ y hsplit hy) hvalue (hstart.name.trans hname), hscan]
        exact ⟨rfl, Numeral.starts_spelling hspelling _⟩
    by_cases hpercent : after.head? = some '%'
    · obtain ⟨rest, rfl⟩ := List.head?_eq_some_iff.mp hpercent
      rw [numeric_percentage hscanned hvalue]
      refine ⟨spelling ++ ['%'], by rw [List.append_assoc]; exact hcut, ?_⟩
      intro y hy
      rw [List.append_assoc]
      exact ⟨numeric_percentage (hstays ['%'] rest y rfl hy) hvalue,
        Numeral.starts_spelling hspelling _⟩
    · rw [numeric_number hscanned hvalue (by simpa using hname) hpercent]
      refine ⟨spelling, hcut, ?_⟩
      intro y hy
      have hpercent : y.head? ≠ some '%' := fun hhead => absurd (hy _ hhead) (by decide)
      exact ⟨numeric_number (hstays [] after y rfl hy) hvalue hy.endsName.startsName.2.2 hpercent,
        Numeral.starts_spelling hspelling _⟩

def Settles (c : Char) (rest p : List Char) : Prop :=
  rest = p ++ (token false c rest).rest ∧ ∀ y, Inert y →
    token false c (p ++ y) = ⟨(token false c rest).value, y, (token false c rest).reports⟩

theorem Start.Chosen.token_eq {c : Char} {rest : List Char} {start : Start}
    (h : Chosen c rest start) : token false c rest = start.scan c rest := by
  rw [token_eq_scan, h.of_eq]

theorem Settles.of_chosen {c : Char} {rest p : List Char} {start : Start}
    (h : Start.Chosen c rest start) (hsplit : rest = p ++ (start.scan c rest).rest)
    (hstays : ∀ y, Inert y → Start.Chosen c (p ++ y) start ∧
      start.scan c (p ++ y) = ⟨(start.scan c rest).value, y, (start.scan c rest).reports⟩) :
    Settles c rest p := by
  rw [Settles, h.token_eq]
  refine ⟨hsplit, ?_⟩
  intro y hy
  obtain ⟨hchosen, hscan⟩ := hstays y hy
  rw [hchosen.token_eq, hscan]

theorem take_before {y : List Char} (hy : Inert y) (rest marks : List Char)
    (hmarks : ∀ m ∈ marks, isInert m = false) (text : List Char)
    (h : (text ++ y).take marks.length = marks) : (text ++ rest).take marks.length = marks := by
  induction marks generalizing text with
  | nil => rfl
  | cons m marks ih =>
    obtain ⟨others, hothers, htake⟩ := take_eq_cons h
    cases text with
    | nil =>
      have := hy m (by rw [← List.nil_append y, hothers]; rfl)
      rw [hmarks m (by simp)] at this
      cases this
    | cons c text =>
      obtain ⟨rfl, rfl⟩ := List.cons.inj hothers
      have := ih (fun m hm => hmarks m (by simp [hm])) text htake
      simpa using this

theorem Inert.sameStart {y : List Char} (hy : Inert y) : SameStart y [] := by
  obtain ⟨hident, hescape, hname⟩ := hy.endsName.startsName
  exact ⟨hident, hescape, hname⟩

theorem pair?_inert {c d : Char} (h : isInert d) : pair? c d = none := by
  have hequal : d ≠ '=' := by
    rintro rfl
    exact absurd h (by decide)
  have hbar : d ≠ '|' := by
    rintro rfl
    exact absurd h (by decide)
  unfold pair?
  split
  case h_7 => rfl
  all_goals contradiction

theorem chosen_lone_before {c : Char} {rest y : List Char} (hy : Inert y)
    (space : ¬ isWhitespace c) (sign : c ∉ ['"', '\'', '#', '@', '\\'])
    (numeral : ¬ Numeral.starts (c :: rest)) (name : ¬ startsName (c :: rest)) :
    Start.Chosen c y (.lone ((sign? c).getD (.delim c))) := by
  have hhead (d : Char) (hd : isInert d = false) : y.head? ≠ some d := by
    intro h
    simp [hy d h] at hd
  refine .lone space sign ?_ ?_ ?_ ?_ ?_
  · exact fun hstarts => numeral (Numeral.starts_before hy [c] rest hstarts)
  · rintro ⟨-, hmark⟩
    obtain ⟨others, rfl, -⟩ := take_eq_cons hmark
    exact hhead '-' (by decide) rfl
  · rintro ⟨-, hmark⟩
    obtain ⟨others, rfl, -⟩ := take_eq_cons hmark
    exact hhead '!' (by decide) rfl
  · by_cases hdash : c = '-'
    · subst hdash
      rw [(sameStart_ident (by decide) hy.sameStart).name]
      decide
    · have hslash : c ≠ '\\' := by
        rintro rfl
        simp at sign
      rw [startsName_cons _ hdash, startsEscape_cons] at name ⊢
      simpa [hslash] using name
  · cases y with
    | nil => rfl
    | cons d y => exact pair?_inert ((inert_cons d y).mp hy)

section Settling

variable {c : Char} {rest : List Char}

theorem settles_whitespace (space : isWhitespace c) : ∃ p, Settles c rest p := by
  obtain ⟨run, hsplit, hrun, -⟩ := exists_run isWhitespace rest
  refine ⟨run, .of_chosen (.whitespace space) hsplit ?_⟩
  intro y hy
  have hdrop := dropWhile_append_boundary hrun fun c hc => (hy.endsName c hc).2.1
  refine ⟨.whitespace space, ?_⟩
  simp only [Start.scan, hdrop]

theorem settles_quote (quoted : c = '"' ∨ c = '\'') (hvalue : (string c rest).value ≠ none)
    (hend : (string c rest).rest = [] → (string c rest).reports = []) :
    ∃ p, Settles c rest p := by
  obtain ⟨p, hsplit, -, hstays⟩ := string_boundary c rest hend
  refine ⟨p, .of_chosen (.quote quoted) hsplit ?_⟩
  intro y hy
  refine ⟨.quote quoted, ?_⟩
  rw [Start.scan, hstays y (.inl hvalue)]
  rfl

theorem settles_hash (sign : c = '#') (hname : rest.head?.any isIdent || startsEscape rest)
    (hend : (name rest).rest = [] → (name rest).reports = []) : ∃ p, Settles c rest p := by
  obtain ⟨p, hsplit, hstays⟩ := name_boundary rest hend
  refine ⟨p, .of_chosen (.hash sign hname) hsplit ?_⟩
  intro y hy
  obtain ⟨hscan, hstart⟩ := hstays y hy.endsName
  refine ⟨.hash sign ?_, ?_⟩
  · rwa [hstart.any isIdent fun c hc => hc, hstart.escape]
  · rw [Start.scan, hscan, hstart.name]
    rfl

theorem settles_atKeyword (sign : c = '@') (hname : startsName rest)
    (hend : (name rest).rest = [] → (name rest).reports = []) : ∃ p, Settles c rest p := by
  obtain ⟨p, hsplit, hstays⟩ := name_boundary rest hend
  refine ⟨p, .of_chosen (.atKeyword sign hname) hsplit ?_⟩
  intro y hy
  obtain ⟨hscan, hstart⟩ := hstays y hy.endsName
  refine ⟨.atKeyword sign (hstart.name.trans hname), ?_⟩
  rw [Start.scan, hscan]
  rfl

theorem settles_numeral (hstarts : Numeral.starts (c :: rest))
    (hend : (numeric (c :: rest)).rest = [] → (numeric (c :: rest)).reports = []) :
    ∃ p, Settles c rest p := by
  obtain ⟨p, hsplit, hstays⟩ := numeric_boundary (c :: rest) hstarts hend
  obtain ⟨p, rfl, hrest⟩ := (List.cons_eq_append_iff.mp hsplit).resolve_left fun hnil => by
    have := (hstays [] inert_nil).2
    rw [hnil.1] at this
    cases this
  refine ⟨p, .of_chosen (.numeral hstarts) hrest ?_⟩
  intro y hy
  obtain ⟨hscan, hstarts⟩ := hstays y hy
  exact ⟨.numeral hstarts, hscan⟩

theorem settles_name (numeral : ¬ Numeral.starts (c :: rest))
    (close : ¬ (c = '-' ∧ rest.take 2 = ['-', '>'])) (hstarts : startsName (c :: rest))
    (hend : (identLike (c :: rest)).rest = [] →
      (identLike (c :: rest)).reports = [] ∧ (identLike (c :: rest)).value ≠ .badUrl) :
    ∃ p, Settles c rest p := by
  obtain ⟨p, hsplit, hstays⟩ := identLike_boundary (c :: rest) hend
  obtain ⟨p, rfl, hrest⟩ := (List.cons_eq_append_iff.mp hsplit).resolve_left fun hnil => by
    have := (hstays [] inert_nil).2
    rw [hnil.1, hstarts] at this
    cases this
  refine ⟨p, .of_chosen (.name numeral close hstarts) hrest ?_⟩
  intro y hy
  obtain ⟨hscan, hstart⟩ := hstays y hy
  rw [hrest] at numeral close
  have hnumeral : ¬ Numeral.starts (c :: (p ++ y)) := fun hnumeral =>
    numeral (Numeral.starts_before hy (c :: p) _ hnumeral)
  have hclose : ¬ (c = '-' ∧ (p ++ y).take 2 = ['-', '>']) := by
    have hmarks : ∀ m ∈ ['-', '>'], isInert m = false := by
      simp only [List.forall_mem_cons]
      exact ⟨by decide, by decide, by simp⟩
    rintro ⟨hc, hmark⟩
    exact close ⟨hc, take_before hy _ ['-', '>'] hmarks p hmark⟩
  refine ⟨.name hnumeral hclose (hstart.trans hstarts), ?_⟩
  rw [Start.scan, ← List.cons_append, hscan]
  rfl

end Settling

/-- A token ends at the same place with the same value before all inert text, if it is neither a
broken string nor a backslash, and if the text did not end in the middle of it. -/
theorem token_boundary {c : Char} {rest : List Char} {kind : TokenKind}
    (hkind : (token false c rest).value = .ok kind) (hstring : kind ≠ .badString)
    (hslash : kind ≠ .delim '\\')
    (hend : (token false c rest).rest = [] →
      (token false c rest).reports = [] ∧ kind ≠ .badUrl) :
    ∃ p, Settles c rest p := by
  have hchosen := Start.chosen_of c rest
  rw [token_eq_scan] at hkind hend
  generalize Start.of false c rest = start at hchosen hkind hend
  cases hchosen with
  | whitespace space => exact settles_whitespace space
  | quote quoted =>
    refine settles_quote quoted ?_ fun hnil => (hend hnil).1
    intro hnone
    simp only [Start.scan, Scanned.value_map, hnone] at hkind
    exact hstring (Except.ok.inj hkind).symm
  | hash sign name => exact settles_hash sign name fun hnil => (hend hnil).1
  | loneHash sign name =>
    refine ⟨[], .of_chosen (.loneHash sign name) rfl ?_⟩
    intro y hy
    refine ⟨.loneHash sign ?_, rfl⟩
    rw [List.nil_append, hy.sameStart.any isIdent fun c hc => hc, hy.sameStart.escape]
    decide
  | numeral starts => exact settles_numeral starts fun hnil => (hend hnil).1
  | commentClose sign mark =>
    obtain ⟨others, rfl, hmark⟩ := take_eq_cons mark
    obtain ⟨others, rfl, -⟩ := take_eq_cons hmark
    exact ⟨['-', '>'], .of_chosen (.commentClose sign mark) rfl
      fun y _ => ⟨.commentClose sign rfl, rfl⟩⟩
  | commentOpen sign mark =>
    obtain ⟨others, rfl, hmark⟩ := take_eq_cons mark
    obtain ⟨others, rfl, hdash⟩ := take_eq_cons hmark
    obtain ⟨others, rfl, -⟩ := take_eq_cons hdash
    exact ⟨['!', '-', '-'], .of_chosen (.commentOpen sign mark) rfl
      fun y _ => ⟨.commentOpen sign rfl, rfl⟩⟩
  | atKeyword sign name => exact settles_atKeyword sign name fun hnil => (hend hnil).1
  | loneAt sign name =>
    refine ⟨[], .of_chosen (.loneAt sign name) rfl ?_⟩
    intro y hy
    refine ⟨.loneAt sign ?_, rfl⟩
    rw [List.nil_append, hy.sameStart.name]
    decide
  | name numeral close starts =>
    refine settles_name numeral close starts fun hnil => ?_
    obtain ⟨hreports, hurl⟩ := hend hnil
    refine ⟨hreports, ?_⟩
    intro hbad
    simp only [Start.scan, Scanned.value_map, hbad] at hkind
    exact hurl (Except.ok.inj hkind).symm
  | backslash sign name =>
    subst sign
    exact absurd (Except.ok.inj hkind).symm hslash
  | pair kind signs =>
    obtain ⟨d, hd, hpair⟩ := Option.bind_eq_some_iff.mp signs
    obtain ⟨others, rfl⟩ := List.head?_eq_some_iff.mp hd
    exact ⟨[d], .of_chosen (.pair kind signs) rfl fun y _ => ⟨.pair kind hpair, rfl⟩⟩
  | lone space sign numeral close openMark name signs =>
    refine ⟨[], .of_chosen (.lone space sign numeral close openMark name signs) rfl ?_⟩
    intro y hy
    exact ⟨chosen_lone_before hy space sign numeral name, rfl⟩

end Lexer

end StyleValue
