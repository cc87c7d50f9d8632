import StyleValue.Proofs.Token.Boundary.Choice
import StyleValue.Proofs.Token.Grammar

/-!
# Scanners find the longest

What the scanner of numerals takes of a text is the longest prefix of it that is a numeral, and what
the scanner of names takes is the longest that is a name, though the parts of a name can be told
apart in more than one way.
-/

set_option autoImplicit false

namespace StyleValue

/-- The longest prefix is the one that leaves no more of the text than any other. -/
theorem isLongest_of_rest {language : Language Char} {p rest : List Char} (hmem : p ∈ language)
    (hrest : ∀ q ∈ language, ∀ others, p ++ rest = q ++ others → rest.length ≤ others.length) :
    IsLongest language p (p ++ rest) := by
  refine ⟨hmem, List.prefix_append p rest, ?_⟩
  rintro q hq ⟨others, heq⟩
  have hle := hrest q hq others heq.symm
  have hlength := congrArg List.length heq
  simp only [List.length_append] at hlength
  omega

namespace Numeral

open Lexer Grammar

theorem dropWhile_suffix_of_all {p : Char → Bool} {body : List Char} (hbody : ∀ c ∈ body, p c)
    (rest : List Char) : (body ++ rest).dropWhile p <:+ rest := by
  rw [List.dropWhile_append_of_pos hbody]
  exact List.dropWhile_suffix p

theorem scanFraction_suffix (text : List Char) : (scanFraction text).2 <:+ text := by
  obtain ⟨fraction, -, hsplit, -⟩ := exists_fractionSpelling text
  exact ⟨fraction, hsplit.symm⟩

theorem scanExponent_suffix (text : List Char) : (scanExponent text).2 <:+ text := by
  obtain ⟨exponent, -, hsplit, -⟩ := exists_exponentSpelling text
  exact ⟨exponent, hsplit.symm⟩

theorem scanFraction_spelling_suffix {value : Option (List Char)} {fraction : List Char}
    (h : FractionSpelling value fraction) (rest : List Char) :
    (scanFraction (fraction ++ rest)).2 <:+ rest := by
  cases h with
  | none => exact scanFraction_suffix rest
  | digits all nonempty =>
    rw [List.cons_append, scanFraction_point, if_pos (digits_first all nonempty rest)]
    exact dropWhile_suffix_of_all all rest

theorem scanExponent_spelling_suffix {value : Option NumeralExponent} {exponent : List Char}
    (h : ExponentSpelling value exponent) (rest : List Char) :
    (scanExponent (exponent ++ rest)).2 <:+ rest := by
  cases h with
  | none => exact scanExponent_suffix rest
  | @digits mark negative sign digits marked signed all nonempty =>
    have hfirst := digits_first all nonempty rest
    have hsign : scanSign (sign ++ (digits ++ rest)) = (negative, digits ++ rest) := by
      obtain ⟨c, others, rfl⟩ := List.exists_cons_of_ne_nil nonempty
      obtain ⟨hplus, hminus, -⟩ := isDigit_ne (all c (by simp))
      exact scanSign_spelling signed (by simpa using hplus) (by simpa using hminus)
    rw [List.cons_append, List.append_assoc, scanExponent_mark, hsign, if_pos ⟨marked, hfirst⟩]
    exact dropWhile_suffix_of_all all rest

/-- A spelling is scanned to its end at least, whatever follows it. -/
theorem scan_spelling_suffix {n : Numeral} {spelling : List Char} (h : Spelling n spelling)
    (rest : List Char) : (scan (spelling ++ rest)).2 <:+ rest := by
  cases h with
  | @parts negative whole sign fraction exponent digits power signed all fractional scaled
      nonempty =>
    obtain ⟨-, hplus, hminus⟩ := unsigned_first all fractional nonempty (exponent ++ rest)
    have hsign := scanSign_spelling signed hplus hminus
    simp only [List.append_assoc, scan, hsign]
    cases scaled with
    | none =>
      -- What is scanned after the spelling is a part of the rest, stage by stage.
      refine (scanExponent_suffix _).trans ?_
      cases fractional with
      | none => exact (scanFraction_suffix _).trans (dropWhile_suffix_of_all all rest)
      | digits hdigits hne =>
        have hpoint : isDigit '.' = false := by decide
        rw [List.cons_append, dropWhile_append_boundary all (by simp [hpoint])]
        exact scanFraction_spelling_suffix (.digits hdigits hne) rest
    | @digits mark negative sign digits marked signed hdigits hne =>
      -- The mark of the exponent ends the parts before it.
      have hmark : isDigit mark = false ∧ mark ≠ '.' := by rcases marked with rfl | rfl <;> decide
      have hscaled := scanExponent_spelling_suffix (.digits marked signed hdigits hne) rest
      generalize hexponent : mark :: (sign ++ digits) ++ rest = text at hscaled
      have hhead : text.head? = some mark := by rw [← hexponent]; rfl
      have hdigit : ∀ c ∈ text.head?, isDigit c = false := by simp [hhead, hmark.1]
      have hfraction := scanFraction_spelling fractional hdigit fun _ => by
        rw [scanFraction_other (by simp [hhead, hmark.2])]
      have hfirst : ∀ c ∈ (fraction ++ text).head?, isDigit c = false := by
        cases fractional with
        | none => exact hdigit
        | digits => simp; decide
      rwa [dropWhile_append_boundary all hfirst, hfraction]

theorem starts_iff {text : List Char} : starts text ↔ ∃ p ∈ numeral, p <+: text := by
  constructor
  · intro h
    obtain ⟨p, hp, hsplit, -⟩ := exists_spelling h
    exact ⟨p, mem_numeral.2 ⟨_, hp⟩, _, hsplit.symm⟩
  · rintro ⟨p, hp, rest, rfl⟩
    obtain ⟨n, hn⟩ := mem_numeral.1 hp
    exact starts_spelling hn rest

/-- The numeral that is scanned is the longest. -/
theorem scan_longest {p rest : List Char} (h : IsLongest numeral p (p ++ rest)) {n : Numeral}
    (hn : Spelling n p) : scan (p ++ rest) = (n, rest) := by
  obtain ⟨q, hq, hsplit, -⟩ := exists_spelling (starts_spelling hn rest)
  have hqp : q <+: p := List.prefix_of_prefix_length_le ⟨_, hsplit.symm⟩ (List.prefix_append p rest)
    (h.longest q (mem_numeral.2 ⟨_, hq⟩) ⟨_, hsplit.symm⟩)
  -- The scanner does not stop before the end of a numeral.
  have hle := (scan_spelling_suffix hn rest).length_le
  have hlength := congrArg List.length hsplit
  simp only [List.length_append] at hlength
  obtain rfl := hqp.eq_of_length (Nat.le_antisymm hqp.length_le (by omega))
  have hrest := List.append_cancel_left hsplit
  exact Prod.ext (hq.unique hn) hrest.symm

theorem exists_longest {text : List Char} (h : starts text) :
    ∃ p, text = p ++ (scan text).2 ∧ IsLongest numeral p (p ++ (scan text).2) ∧
      Spelling (scan text).1 p := by
  obtain ⟨p, hp, hsplit, -⟩ := exists_spelling h
  refine ⟨p, hsplit, isLongest_of_rest (mem_numeral.2 ⟨_, hp⟩) ?_, hp⟩
  intro q hq others heq
  obtain ⟨n, hn⟩ := mem_numeral.1 hq
  rw [hsplit.trans heq]
  exact (scan_spelling_suffix hn others).length_le

end Numeral

namespace Lexer

open Grammar

theorem name_stops (text : List Char) :
    (∀ c ∈ (name text).rest.head?, isIdent c = false) ∧ startsEscape (name text).rest = false := by
  fun_induction name text with
  | case1 => exact ⟨by simp, rfl⟩
  | case2 c rest hc ih => exact ih
  | case3 c rest hc he escaped ih => exact ih
  | case4 c rest hc he => exact ⟨by simpa using hc, by simpa using he⟩

theorem startsEscape_iff {text : List Char} :
    startsEscape text ↔ ∃ rest, text = '\\' :: rest ∧ ∀ c ∈ rest.head?, isNewline c = false := by
  constructor
  · intro h
    cases text with
    | nil => cases h
    | cons c rest =>
      rw [startsEscape_cons, Bool.and_eq_true, beq_iff_eq] at h
      obtain ⟨rfl, hrest⟩ := h
      refine ⟨rest, rfl, ?_⟩
      intro d hd
      rw [hd] at hrest
      simpa using hrest
  · rintro ⟨rest, rfl, hrest⟩
    rw [startsEscape_cons]
    cases rest with
    | nil => rfl
    | cons d others => simp [hrest d (by simp)]

theorem isNewline_of_isHexDigit {c : Char} (h : isHexDigit c) : isNewline c = false := by
  by_contra hnewline
  have hspace : isWhitespace c := by
    simp only [isNewline, Bool.not_eq_false] at hnewline
    simp [isWhitespace, Ordinal.isWhitespace, hnewline]
  rw [isHexDigit_whitespace hspace] at h
  cases h

theorem startsEscape_digits {digits : List Char} (all : ∀ c ∈ digits, isHexDigit c)
    (nonempty : digits ≠ []) (rest : List Char) : startsEscape ('\\' :: (digits ++ rest)) := by
  obtain ⟨c, others, rfl⟩ := List.exists_cons_of_ne_nil nonempty
  exact startsEscape_iff.2 ⟨_, rfl, by simp [isNewline_of_isHexDigit (all c (by simp))]⟩

theorem escape_char {c : Char} (h : isHexDigit c = false) (rest : List Char) :
    escape (c :: rest) = ⟨c, rest, []⟩ := by
  simp [escape, h]

theorem name_of_decodes {text value : List Char} (h : Decodes text value) :
    (name text).value = value := by
  induction h with
  | nil => rw [name]
  | ident part others ih => rw [name_ident _ part, Scanned.value_map, ih]
  | @ordinal digits space text value all nonempty most greedy spaced others ih =>
    have hdrop : dropSpace (space ++ text) = text := by
      rcases spaced with rfl | ⟨w, hw, rfl⟩
      · refine dropSpace_eq_self fun c hc => ?_
        rcases others.head c hc with hident | rfl
        · exact isWhitespace_ident hident
        · decide
      · simp [dropSpace, hw]
    rw [name_escape _ (startsEscape_digits all nonempty _), escape_digits digits _ all nonempty most
      greedy, hdrop]
    simp [ih]
  | @char c text value plain kept others ih =>
    rw [name_escape _ (startsEscape_iff.2 ⟨_, rfl, by simpa using kept⟩), escape_char plain]
    simp [ih]
  | endOfInput =>
    rw [name_escape _ (by decide)]
    simp [escape, name]

theorem head?_of_isPrefix {p text : List Char} (h : p <+: text) {c : Char} (hc : c ∈ p.head?) :
    c ∈ text.head? := by
  obtain ⟨rest, rfl⟩ := h
  cases p with
  | nil => cases hc
  | cons d p => exact hc

/-- What the scanner of escapes takes is an escape, and is decoded to its value whatever part of the
text after it is decoded too. -/
theorem exists_escape {text : List Char} (hne : text ≠ [])
    (hnewline : ∀ c ∈ text.head?, isNewline c = false) :
    ∃ taken, text = taken ++ (escape text).rest ∧ '\\' :: taken ∈ namePart ∧
      ∀ p value, p <+: (escape text).rest → Decodes p value →
        Decodes ('\\' :: (taken ++ p)) ((escape text).value :: value) := by
  obtain ⟨c, rest, rfl⟩ := List.exists_cons_of_ne_nil hne
  by_cases hc : isHexDigit c
  · obtain ⟨digits, text, hsplit, hall, hdigits, hmost, hstop⟩ := exists_escape_digits rest hc
    rw [hsplit, escape_digits digits text hall hdigits hmost hstop]
    by_cases hspace : text.head?.any isWhitespace
    · obtain ⟨w, hw, hwspace⟩ := (Option.any_eq_true _ _).mp hspace
      obtain ⟨others, rfl⟩ := List.head?_eq_some_iff.mp hw
      have hdrop : dropSpace (w :: others) = others := by simp [dropSpace, hwspace]
      refine ⟨digits ++ [w], by simp [hdrop], ?_, ?_⟩
      · exact mem_namePart.2
          (.inr (.inl ⟨digits, [w], hall, hdigits, hmost, .inr ⟨w, hwspace, rfl⟩, rfl⟩))
      · intro p value _ hdecodes
        rw [List.append_assoc]
        exact .ordinal hall hdigits hmost (.inr (by simp [isHexDigit_whitespace hwspace]))
          (.inr ⟨w, hwspace, rfl⟩) hdecodes
    · have hdrop : dropSpace text = text := dropSpace_eq_self fun c hc => by
        rw [hc] at hspace
        simpa using hspace
      rw [hdrop]
      refine ⟨digits, rfl, ?_, ?_⟩
      · exact mem_namePart.2
          (.inr (.inl ⟨digits, [], hall, hdigits, hmost, .inl rfl, by rw [List.append_nil]⟩))
      · intro p value hp hdecodes
        refine .ordinal hall hdigits hmost ?_ (.inl rfl) hdecodes
        exact hstop.imp_right fun hstop d hd => hstop d (head?_of_isPrefix hp hd)
  · have hplain : isHexDigit c = false := by simpa using hc
    have hkept : isNewline c = false := hnewline c (by simp)
    rw [escape_char hplain]
    refine ⟨[c], rfl, mem_namePart.2 (.inr (.inr ⟨c, hplain, hkept, rfl⟩)), ?_⟩
    intro p value _ hdecodes
    exact .char hplain hkept hdecodes

/-- What the scanner of names takes is a name, or one before a backslash at the end of the text, and
is decoded to its value. -/
theorem exists_name (text : List Char) :
    ∃ p, text = p ++ (name text).rest ∧ p ∈ namesOf text ∧ Decodes p (name text).value := by
  fun_induction name text with
  | case1 => exact ⟨[], rfl, .inl nil_mem_names, .nil⟩
  | case2 c rest hc ih =>
    obtain ⟨p, hsplit, hmem, hdecodes⟩ := ih
    refine ⟨c :: p, congrArg (c :: ·) hsplit, ?_, .ident hc hdecodes⟩
    exact cons_mem_namesOf (mem_namePart.2 (.inl ⟨c, hc, rfl⟩)) hmem
  | case3 c rest hc he escaped ih =>
    obtain ⟨_, heq, hnewline⟩ := startsEscape_iff.1 he
    obtain ⟨rfl, rfl⟩ := List.cons.inj heq
    by_cases hrest : rest = []
    · subst hrest
      have hname : name [] = ⟨[], [], []⟩ := by rw [name]
      refine ⟨['\\'], by simp [escaped, escape, hname], .inr ⟨rfl, ?_⟩, ?_⟩
      · exact Language.append_mem_mul nil_mem_names ⟨'\\', rfl, rfl⟩
      · simpa [escaped, escape, hname] using Decodes.endOfInput
    · obtain ⟨p, hsplit, hmem, hdecodes⟩ := ih
      obtain ⟨taken, hcut, hpart, hescape⟩ := exists_escape hrest hnewline
      refine ⟨'\\' :: (taken ++ p), ?_, ?_, hescape p _ ⟨_, hsplit.symm⟩ hdecodes⟩
      · rw [List.cons_append, List.append_assoc]
        exact congrArg ('\\' :: ·) (hcut.trans (congrArg (taken ++ ·) hsplit))
      · have hmem := cons_mem_namesOf hpart hmem
        rwa [List.cons_append, List.cons_append, ← hcut] at hmem
  | case4 c rest hc he => exact ⟨[], rfl, .inl nil_mem_names, .nil⟩

theorem length_name_le (text : List Char) : (name text).rest.length ≤ text.length := by
  obtain ⟨p, hsplit, -, -⟩ := exists_name text
  have := congrArg List.length hsplit
  rw [List.length_append] at this
  omega

/-- A name without some digits at its start is a name, and if there are more digits than that, they
go on in what follows the name. A space after them is not part of the name. -/
theorem exists_names_skip {digits q others text : List Char} (hq : q ∈ names)
    (hdigits : ∀ c ∈ digits, isHexDigit c) (h : q ++ others = digits ++ text) :
    ∃ q' ∈ names, q'.length ≤ q.length ∧
      ∃ others', dropSpace text = q' ++ others' ∧ others'.length ≤ others.length := by
  induction digits generalizing q with
  | nil =>
    obtain rfl : q ++ others = text := h
    cases q with
    | nil => exact ⟨[], nil_mem_names, le_rfl, _, rfl, length_dropSpace_le others⟩
    | cons c q =>
      have hspace : isWhitespace c = false := by
        rcases head_of_mem_names hq with ⟨hident, -⟩ | rfl
        · exact isWhitespace_ident hident
        · decide
      exact ⟨c :: q, hq, le_rfl, others, by simp [dropSpace, hspace], le_rfl⟩
  | cons d digits ih =>
    have hd : isHexDigit d := hdigits d (by simp)
    have hrest : ∀ c ∈ digits, isHexDigit c := fun c hc => hdigits c (by simp [hc])
    cases q with
    | nil =>
      refine ⟨[], nil_mem_names, le_rfl, dropSpace text, rfl, ?_⟩
      have hlength := congrArg List.length h
      simp only [List.nil_append, List.length_append, List.length_cons] at hlength
      have := length_dropSpace_le text
      omega
    | cons c q =>
      obtain ⟨rfl, heq⟩ := List.cons.inj h
      obtain ⟨-, hname⟩ := (head_of_mem_names hq).resolve_right (by
        rintro rfl
        revert hd
        decide)
      obtain ⟨q', hq', hle, hrest⟩ := ih hname hrest heq
      exact ⟨q', hq', hle.trans (Nat.le_succ _), hrest⟩

/-- An escape is scanned to its end at least, and any digits after it that it could have. -/
theorem exists_escape_rest {digits : List Char} (all : ∀ c ∈ digits, isHexDigit c)
    (nonempty : digits ≠ []) (most : digits.length ≤ 6) (text : List Char) :
    ∃ more rest, text = more ++ rest ∧ (∀ c ∈ more, isHexDigit c) ∧
      (escape (digits ++ text)).rest = dropSpace rest := by
  obtain ⟨run, hsplit, hrun, hstop⟩ := exists_run isHexDigit text
  refine ⟨run.take (6 - digits.length),
    run.drop (6 - digits.length) ++ text.dropWhile isHexDigit, ?_,
    fun c hc => hrun c (List.mem_of_mem_take hc), ?_⟩
  · rw [← List.append_assoc, List.take_append_drop]
    exact hsplit
  · have hcut : digits ++ text = (digits ++ run.take (6 - digits.length)) ++
        (run.drop (6 - digits.length) ++ text.dropWhile isHexDigit) := by
      rw [List.append_assoc, ← List.append_assoc (run.take _), List.take_append_drop, ← hsplit]
    rw [hcut, escape_digits]
    · intro c hc
      rcases List.mem_append.1 hc with hc | hc
      · exact all c hc
      · exact hrun c (List.mem_of_mem_take hc)
    · simp [nonempty]
    · rw [List.length_append, List.length_take]
      omega
    · by_cases hfull : 6 - digits.length ≤ run.length
      · left
        rw [List.length_append, List.length_take]
        omega
      · right
        rwa [List.drop_eq_nil_of_le (by omega), List.nil_append]

/-- A name is scanned to its end at least, whatever follows it, and however its parts are told
apart. -/
theorem length_name_append_le {q : List Char} (hq : q ∈ names) (others : List Char) :
    (name (q ++ others)).rest.length ≤ others.length := by
  induction hn : q.length using Nat.strong_induction_on generalizing q others with
  | _ n ih =>
    obtain rfl | ⟨part, hpart, q', hq', rfl⟩ := mem_names_iff.1 hq
    · exact length_name_le others
    rw [List.append_assoc]
    rcases mem_namePart.1 hpart with ⟨c, hc, rfl⟩ |
      ⟨digits, space, hall, hne, hmost, hspace, rfl⟩ | ⟨c, hplain, hkept, rfl⟩
    · rw [List.singleton_append, name_ident _ hc]
      exact ih _ (by simp [← hn]) hq' others rfl
    · rw [List.cons_append, List.append_assoc, name_escape _ (startsEscape_digits hall hne _)]
      have hlt : q'.length < n := by
        rw [← hn, List.length_append, List.length_cons]
        omega
      rcases hspace with rfl | ⟨w, hw, rfl⟩
      · -- Digits that the name has as parts of its own may belong to the escape.
        obtain ⟨more, rest, hsplit, hmore, hescape⟩ :=
          exists_escape_rest hall hne hmost ([] ++ (q' ++ others))
        obtain ⟨q'', hq'', hle, others', hdrop, hothers⟩ :=
          exists_names_skip hq' hmore hsplit
        rw [Scanned.rest_after, Scanned.rest_map, hescape, hdrop]
        exact (ih _ (hle.trans_lt hlt) hq'' others' rfl).trans hothers
      · have hescape : (escape (digits ++ ([w] ++ (q' ++ others)))).rest = q' ++ others := by
          rw [escape_digits digits _ hall hne hmost (.inr (by simp [isHexDigit_whitespace hw]))]
          simp [dropSpace, hw]
        rw [Scanned.rest_after, Scanned.rest_map, hescape]
        exact ih _ hlt hq' others rfl
    · have hstarts : startsEscape ('\\' :: (c :: (q' ++ others))) :=
        startsEscape_iff.2 ⟨_, rfl, by simpa using hkept⟩
      rw [List.cons_append, List.singleton_append, name_escape _ hstarts, escape_char hplain]
      refine ih _ ?_ hq' others rfl
      rw [← hn, List.length_append]
      exact Nat.lt_add_of_pos_left (by simp)

/-- The name that is scanned is the longest, and its value what it is decoded to. -/
theorem exists_longest_name (text : List Char) :
    ∃ p, text = p ++ (name text).rest ∧ IsLongest (namesOf text) p text ∧
      Decodes p (name text).value := by
  obtain ⟨p, hsplit, hmem, hdecodes⟩ := exists_name text
  refine ⟨p, hsplit, ?_, hdecodes⟩
  have hlongest := isLongest_of_rest hmem fun q hq others heq => by
    rcases (Language.mem_add _ _ _).1 hq with hname | ⟨rfl, hending⟩
    · rw [hsplit.trans heq]
      exact length_name_append_le hname others
    · -- A backslash that nothing follows would be the start of an escape.
      obtain ⟨body, hbody, slash, ⟨c, hc, rfl⟩, hq⟩ := Language.mem_mul.1 hending
      obtain rfl : c = '\\' := by simpa using hc
      have hle := length_name_append_le hbody ['\\']
      rw [hq] at hle
      by_contra hlong
      obtain ⟨d, hrest⟩ : ∃ d, (name q).rest = [d] := List.length_eq_one_iff.1 (by
        simp only [List.length_singleton] at hle
        omega)
      have hlast := congrArg List.getLast? (hsplit.symm.trans hq.symm)
      rw [hrest] at hlast
      obtain rfl : d = '\\' := by simpa using hlast
      have hstop := (name_stops q).2
      rw [hrest] at hstop
      exact absurd hstop (by decide)
  rwa [← hsplit] at hlongest

end Lexer

end StyleValue
