import StyleValue.Proofs.Token.Boundary.Numeral
import StyleValue.Proofs.Token.Start

/-!
# What a token is chosen by

The scanner tries one kind of token after the other. Here each kind has a condition of its own on
the first characters, of which exactly one holds, so that the order of the trials does not matter.
-/

set_option autoImplicit false

namespace StyleValue

namespace Lexer

theorem isWhitespace_ident {c : Char} (h : isIdent c) : isWhitespace c = false := by
  by_contra hspace
  simp only [isWhitespace, Ordinal.isWhitespace, Ordinal.isNewline, Bool.not_eq_false,
    Bool.or_eq_true, beq_iff_eq] at hspace
  unfold isIdent at h
  rcases hspace with (hn | hn) | hn
  all_goals
    rw [hn] at h
    exact absurd h (by decide)

theorem not_starts {c : Char} (hident : isIdent c = false) (hplus : c ≠ '+') (hpoint : c ≠ '.')
    (rest : List Char) : Numeral.starts (c :: rest) = false := by
  have hminus : c ≠ '-' := by
    rintro rfl
    revert hident
    decide
  rw [Numeral.starts_eq, Numeral.scanSign_other (by simpa using hplus) (by simpa using hminus),
    Numeral.startsUnsigned_other hpoint]
  by_contra hdigit
  have hdigit : isDigit c := by simpa using hdigit
  simp only [isDigit, isIdent, Ordinal.isIdent] at hident hdigit
  simp [hdigit] at hident

theorem not_startsName {c : Char} (hident : isIdent c = false) (hslash : c ≠ '\\')
    (rest : List Char) : startsName (c :: rest) = false :=
  startsName_of_not_ident hident (by simp [startsEscape_cons, hslash])

theorem pair_first {c : Char} {rest : List Char} {kind : TokenKind}
    (h : rest.head?.bind (pair? c) = some kind) : c ∈ ['$', '*', '^', '~', '|'] := by
  obtain ⟨d, -, hd⟩ := Option.bind_eq_some_iff.mp h
  unfold pair? at hd
  split at hd <;> simp_all

theorem take_eq_cons {a : Char} {marks text : List Char} {n : Nat}
    (h : text.take (n + 1) = a :: marks) :
    ∃ others, text = a :: others ∧ others.take n = marks := by
  cases text with
  | nil => simp at h
  | cons c others =>
    obtain ⟨rfl, hothers⟩ := List.cons.inj h
    exact ⟨others, rfl, hothers⟩

namespace Start

inductive Chosen (c : Char) (rest : List Char) : Start → Prop
  | whitespace (space : isWhitespace c) : Chosen c rest .whitespace
  | quote (quoted : c = '"' ∨ c = '\'') : Chosen c rest .quote
  | hash (sign : c = '#') (name : rest.head?.any isIdent || startsEscape rest) :
    Chosen c rest .hash
  | loneHash (sign : c = '#') (name : ¬ (rest.head?.any isIdent || startsEscape rest)) :
    Chosen c rest (.lone (.delim c))
  | numeral (starts : Numeral.starts (c :: rest)) : Chosen c rest .numeral
  | commentClose (sign : c = '-') (mark : rest.take 2 = ['-', '>']) : Chosen c rest .commentClose
  | commentOpen (sign : c = '<') (mark : rest.take 3 = ['!', '-', '-']) :
    Chosen c rest .commentOpen
  | atKeyword (sign : c = '@') (name : startsName rest) : Chosen c rest .atKeyword
  | loneAt (sign : c = '@') (name : ¬ startsName rest) : Chosen c rest (.lone (.delim c))
  | name (numeral : ¬ Numeral.starts (c :: rest)) (close : ¬ (c = '-' ∧ rest.take 2 = ['-', '>']))
    (starts : startsName (c :: rest)) : Chosen c rest .name
  | backslash (sign : c = '\\') (name : ¬ startsName (c :: rest)) : Chosen c rest .backslash
  | pair (kind : TokenKind) (signs : rest.head?.bind (pair? c) = some kind) :
    Chosen c rest (.pair kind)
  | lone (space : ¬ isWhitespace c) (sign : c ∉ ['"', '\'', '#', '@', '\\'])
    (numeral : ¬ Numeral.starts (c :: rest)) (close : ¬ (c = '-' ∧ rest.take 2 = ['-', '>']))
    (openMark : ¬ (c = '<' ∧ rest.take 3 = ['!', '-', '-'])) (name : ¬ startsName (c :: rest))
    (signs : rest.head?.bind (pair? c) = none) :
    Chosen c rest (.lone ((sign? c).getD (.delim c)))

theorem chosen_of (c : Char) (rest : List Char) : Chosen c rest (of false c rest) := by
  unfold of
  refine iteInduction (fun hspace => .whitespace hspace) fun hspace => ?_
  refine iteInduction (fun hquote => .quote (by simpa using hquote)) fun hquote => ?_
  refine iteInduction (fun hhash => ?_) fun hhash => ?_
  · exact iteInduction (fun hname => .hash hhash hname) fun hname => .loneHash hhash hname
  refine iteInduction (fun hnumeral => .numeral hnumeral) fun hnumeral => ?_
  refine iteInduction (fun hclose => ?_) fun hclose => ?_
  · obtain ⟨hc, hmark⟩ : c = '-' ∧ rest.take 2 = ['-', '>'] := by simpa using hclose
    exact .commentClose hc hmark
  refine iteInduction (fun hopen => ?_) fun hopen => ?_
  · obtain ⟨hc, hmark⟩ : c = '<' ∧ rest.take 3 = ['!', '-', '-'] := by simpa using hopen
    exact .commentOpen hc hmark
  refine iteInduction (fun hat => ?_) fun hat => ?_
  · exact iteInduction (fun hkeyword => .atKeyword hat hkeyword) fun hkeyword =>
      .loneAt hat hkeyword
  refine iteInduction (fun hrange => by simp at hrange) fun _ => ?_
  refine iteInduction (fun hident => .name hnumeral (by simpa using hclose) hident)
    fun hident => ?_
  refine iteInduction (fun hslash => .backslash hslash hident) fun hslash => ?_
  cases hsigns : rest.head?.bind (pair? c) with
  | some kind => exact .pair kind hsigns
  | none =>
    refine .lone hspace ?_ hnumeral (by simpa using hclose) (by simpa using hopen) hident hsigns
    simp_all

theorem Chosen.of_eq {c : Char} {rest : List Char} {start : Start} (h : Chosen c rest start) :
    of false c rest = start := by
  unfold of
  cases h with
  | whitespace space => rw [if_pos space]
  | quote quoted => rcases quoted with rfl | rfl <;> rfl
  | hash sign name =>
    subst sign
    rw [if_neg (by decide), if_neg (by decide), if_pos rfl, if_pos name]
  | loneHash sign name =>
    subst sign
    rw [if_neg (by decide), if_neg (by decide), if_pos rfl, if_neg name]
  | numeral starts =>
    have hfirst : isIdent c ∨ c = '+' ∨ c = '.' := by
      by_contra hnot
      simp only [not_or, Bool.not_eq_true] at hnot
      simp [not_starts hnot.1 hnot.2.1 hnot.2.2 rest] at starts
    have hspace : ¬ isWhitespace c := by
      rcases hfirst with hc | rfl | rfl
      · simp [isWhitespace_ident hc]
      · decide
      · decide
    have hsign : c ≠ '"' ∧ c ≠ '\'' ∧ c ≠ '#' := by
      refine ⟨?_, ?_, ?_⟩ <;>
      · rintro rfl
        revert hfirst
        decide
    rw [if_neg hspace, if_neg (by simp [hsign]), if_neg hsign.2.2, if_pos starts]
  | commentClose sign mark =>
    subst sign
    obtain ⟨others, rfl, hmark⟩ := take_eq_cons mark
    obtain ⟨others, rfl, -⟩ := take_eq_cons hmark
    rfl
  | commentOpen sign mark =>
    subst sign
    rw [not_starts (by decide) (by decide) (by decide), mark]
    rfl
  | atKeyword sign name =>
    subst sign
    rw [not_starts (by decide) (by decide) (by decide), name]
    rfl
  | loneAt sign name =>
    subst sign
    rw [not_starts (by decide) (by decide) (by decide)]
    simp [name]
    decide
  | name numeral close starts =>
    have hfirst : isIdent c ∨ c = '\\' := by
      by_contra hnot
      simp only [not_or, Bool.not_eq_true] at hnot
      simp [not_startsName hnot.1 hnot.2 rest] at starts
    have hspace : ¬ isWhitespace c := by
      rcases hfirst with hc | rfl
      · simp [isWhitespace_ident hc]
      · decide
    have hsign : c ≠ '"' ∧ c ≠ '\'' ∧ c ≠ '#' ∧ c ≠ '<' ∧ c ≠ '@' := by
      refine ⟨?_, ?_, ?_, ?_, ?_⟩ <;>
      · rintro rfl
        revert hfirst
        decide
    simp [hspace, hsign, numeral, close, starts]
  | backslash sign name =>
    subst sign
    rw [not_starts (by decide) (by decide) (by decide)]
    simp [name]
    decide
  | pair kind signs =>
    have hc := pair_first signs
    simp only [List.mem_cons, List.not_mem_nil, or_false] at hc
    rcases hc with rfl | rfl | rfl | rfl | rfl
    all_goals
      rw [not_starts (by decide) (by decide) (by decide),
        not_startsName (by decide) (by decide), signs]
      rfl
  | lone space sign numeral close openMark name signs =>
    simp only [List.mem_cons, not_or] at sign
    simp [space, sign, numeral, close, openMark, name, signs]

end Start

end Lexer

end StyleValue
