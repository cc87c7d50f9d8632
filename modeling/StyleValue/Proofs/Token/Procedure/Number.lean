import StyleValue.Proofs.Token.First
import StyleValue.Proofs.Token.Procedure.Name

/-!
# Numbers by procedures

A number is collected part by part, as the spelling of a numeral. Its mantissa and its exponent are
literals of decimals, so that converting it fails only for an integer out of range.
-/

set_option autoImplicit false

namespace StyleValue

namespace Procedure

open Numeral

variable {c : Cursor} {text : List Char} (htext : c.text = text)

theorem signed_digit (text : List Char) :
    ((text[0]? = some '-' ∨ text[0]? = some '+') ∧ text[1]?.any isDigit ∨
      text[0]?.any isDigit) ↔ (scanSign text).2.head?.any isDigit := by
  unfold scanSign
  have hsigns : isDigit '-' = false ∧ isDigit '+' = false := by decide
  split
  · simp [hsigns, List.head?_eq_getElem?]
  · simp [hsigns, List.head?_eq_getElem?]
  · next hminus hplus =>
    match text with
    | [] => simp
    | ch :: others =>
      have hne : ch ≠ '-' ∧ ch ≠ '+' :=
        ⟨fun h => hminus others (h ▸ rfl), fun h => hplus others (h ▸ rfl)⟩
      simp [hne]

section Parts

include htext

theorem on_signPart : ∃ sign, SignSpelling (scanSign text).1 sign ∧
    text = sign ++ (scanSign text).2 ∧ signPart.on c = some (.ok sign, c.skip sign.length) := by
  unfold scanSign
  split
  · exact ⟨_, .minus, rfl, by simp [signPart, htext, Cursor.skip]⟩
  · exact ⟨_, .plus, rfl, by simp [signPart, htext, Cursor.skip]⟩
  · next hminus hplus =>
    refine ⟨_, .none, rfl, ?_⟩
    cases text with
    | nil => simp [signPart, htext, Cursor.skip]
    | cons ch others =>
      have hne : ch ≠ '+' ∧ ch ≠ '-' :=
        ⟨fun h => hplus others (h ▸ rfl), fun h => hminus others (h ▸ rfl)⟩
      simp [signPart, htext, Cursor.skip, hne]

theorem on_fractionPart (number : List Char) : ∃ fraction,
    FractionSpelling (scanFraction text).1 fraction ∧ text = fraction ++ (scanFraction text).2 ∧
      (fractionPart number).on c = some (.ok (number ++ fraction, (scanFraction text).1.isSome),
        c.skip fraction.length) := by
  by_cases hpoint : text.head? = some '.'
  · obtain ⟨others, rfl⟩ := List.head?_eq_some_iff.mp hpoint
    rw [scanFraction_point]
    split
    · next hdigit =>
      refine ⟨'.' :: others.takeWhile isDigit, ?_, by simp, ?_⟩
      · exact .digits (fun d hd => List.mem_takeWhile_imp hd) (takeWhile_ne_nil hdigit)
      · rw [List.head?_eq_getElem?] at hdigit
        simp [fractionPart, htext, hdigit, on_collectWhile, Cursor.skip]
    · next hdigit =>
      refine ⟨[], .none, rfl, ?_⟩
      rw [List.head?_eq_getElem?] at hdigit
      simp [fractionPart, htext, hdigit, Cursor.skip]
  · rw [scanFraction_other hpoint]
    refine ⟨[], .none, rfl, ?_⟩
    simp [fractionPart, htext, hpoint, List.head?_take, Cursor.skip]

theorem on_exponentPart : ∃ exponent, ExponentSpelling (scanExponent text).1 exponent ∧
    text = exponent ++ (scanExponent text).2 ∧
      exponentPart.on c = some (.ok (exponent.tail, (scanExponent text).1.isSome),
        c.skip exponent.length) := by
  match text with
  | [] => exact ⟨[], .none, rfl, by simp [exponentPart, htext, Cursor.skip, scanExponent]⟩
  | mark :: others =>
    rw [scanExponent_mark]
    split
    · next hmark =>
      have hnext := (Cursor.moves_next htext).text
      obtain ⟨sign, hsign, hsplit, hon⟩ := on_signPart hnext
      rw [List.tail_cons] at hsign hsplit
      have hdigits := Cursor.text_skip_append (hnext.trans hsplit)
      refine ⟨mark :: (sign ++ (scanSign others).2.takeWhile isDigit), ?_, ?_, ?_⟩
      · exact .digits hmark.1 hsign (fun d hd => List.mem_takeWhile_imp hd) (takeWhile_ne_nil hmark.2)
      · rw [List.cons_append, List.append_assoc, List.takeWhile_append_dropWhile, ← hsplit]
      · simp [exponentPart, htext, signed_digit, hmark, hon, on_collectWhile, hdigits,
          Cursor.skip_skip, Cursor.skip]
    · next hmark =>
      refine ⟨[], .none, rfl, ?_⟩
      simp [exponentPart, htext, signed_digit, hmark, Cursor.skip]

end Parts

section Convert

variable (n : Numeral) {sign fraction exponent : List Char}

theorem on_decimal (signed : SignSpelling n.negative sign) (all : ∀ d ∈ n.whole, isDigit d)
    (fractional : FractionSpelling n.fraction fraction)
    (nonempty : n.whole ≠ [] ∨ n.fraction ≠ none) :
    (decimal (sign ++ (n.whole ++ fraction))).on c = some (.ok n.mantissa, c) := by
  obtain ⟨-, hplus, hminus⟩ := unsigned_first all fractional nonempty []
  rw [List.append_nil] at hplus hminus
  obtain ⟨negative, whole, digits, power⟩ := n
  have hfirst : ∀ d ∈ fraction.head?, isDigit d = false := by
    cases fractional <;> simp
    decide
  rw [decimal, scanSign_spelling signed hplus hminus]
  simp only [Lexer.takeWhile_append_boundary all hfirst, Lexer.dropWhile_append_boundary all hfirst]
  cases fractional with
  | none =>
    have hne : whole ≠ [] := by simpa using nonempty
    simp [hne, mantissa]
  | digits hall hne => simp [hne, mantissa, List.all_eq_true.2 hall]

/-- The exponent of a numeral, or zero if it has none, is an integer. -/
theorem on_power (h : ExponentSpelling n.exponent exponent) :
    ∃ d : Decimal, (decimal (if exponent.tail.isEmpty then ['0'] else exponent.tail)).on c =
      some (.ok d, c) ∧ d.truncate = n.power := by
  obtain ⟨negative, whole, fraction, power⟩ := n
  cases h with
  | none => exact ⟨⟨false, 0, 0⟩, rfl, rfl⟩
  | @digits mark negative sign digits marked signed all nonempty =>
    have hon : (decimal (sign ++ (digits ++ []))).on c = _ :=
      on_decimal ⟨negative, digits, none, none⟩ signed all .none (.inl nonempty)
    rw [List.append_nil] at hon
    have hliteral : (mark :: (sign ++ digits)).tail.isEmpty = false := by simp [nonempty]
    rw [hliteral]
    exact ⟨_, hon, by simp [Decimal.truncate, mantissa, Numeral.power, tenPow]⟩

theorem on_convert (signed : SignSpelling n.negative sign) (all : ∀ d ∈ n.whole, isDigit d)
    (fractional : FractionSpelling n.fraction fraction)
    (scaled : ExponentSpelling n.exponent exponent)
    (nonempty : n.whole ≠ [] ∨ n.fraction ≠ none) :
    (convert (sign ++ (n.whole ++ fraction)) exponent.tail
        (!n.fraction.isSome && !n.exponent.isSome)).on c =
      some (match n.value with
        | .ok x => .ok x
        | .error _ => .error .overflow, c) := by
  have hmantissa (c : Cursor) := on_decimal (c := c) n signed all fractional nonempty
  obtain ⟨d, hpower, hd⟩ := on_power (c := c) n scaled
  have hspelling : Spelling n _ := .parts signed all fractional scaled nonempty
  rw [value_eq hspelling.all_digits]
  have hinteger : (!n.fraction.isSome && !n.exponent.isSome) = n.isInteger := by
    rw [isInteger, Option.not_isSome, Option.not_isSome]
  have hsign : ((sign ++ (n.whole ++ fraction)).head? == some '-') = n.negative := by
    obtain ⟨-, -, hminus⟩ := unsigned_first all fractional nonempty []
    rw [List.append_nil] at hminus
    generalize n.negative = negative at signed
    cases signed with
    | none => simpa using hminus
    | plus => rfl
    | minus => rfl
  simp only [convert, on_bind, hmantissa, hpower, Option.bind_some, hd, hinteger, hsign]
  cases n.mantissa.scale n.power with
  | some scaled => rfl
  | none =>
    rw [on_ite]
    split <;> rfl

end Convert

theorem on_number (hstarts : starts c.text) : ∃ p, Spelling (scan c.text).1 p ∧
    c.text = p ++ (scan c.text).2 ∧ number.on c = some (match (scan c.text).1.value with
      | .ok x => .ok x
      | .error _ => .error .overflow, c.skip p.length) := by
  generalize htext : c.text = text at *
  obtain ⟨sign, hsigned, hsign, honsign⟩ := on_signPart htext
  generalize hunsigned : scanSign text = signed at hsigned hsign
  have hafterSign := Cursor.text_skip_append (htext.trans hsign)
  have honwhole := on_collectWhile (c := c.skip sign.length) isDigit sign
  rw [hafterSign] at honwhole
  have hwhole := List.takeWhile_append_dropWhile (p := isDigit) (l := signed.2)
  set whole := signed.2.takeWhile isDigit
  have hafterWhole := Cursor.text_skip_append (hafterSign.trans hwhole.symm)
  obtain ⟨fraction, hfractional, hfraction, honfraction⟩ :=
    on_fractionPart hafterWhole (sign ++ whole)
  generalize hscanned : scanFraction (signed.2.dropWhile isDigit) = fractional
    at hfractional hfraction honfraction
  have hafterFraction := Cursor.text_skip_append (hafterWhole.trans hfraction)
  obtain ⟨exponent, hscaled, hexponent, honexponent⟩ := on_exponentPart hafterFraction
  generalize hraised : scanExponent fractional.2 = scaled at hscaled hexponent honexponent
  rw [starts_eq, hunsigned] at hstarts
  have hnonempty := digits_of_startsUnsigned hstarts
  rw [hscanned] at hnonempty
  have hall : ∀ d ∈ whole, isDigit d := fun d hd => List.mem_takeWhile_imp hd
  rw [scan_eq hunsigned hscanned hraised]
  refine ⟨_, .parts hsigned hall hfractional hscaled hnonempty, ?_, ?_⟩
  · rw [List.append_assoc, List.append_assoc, List.append_assoc, ← hexponent, ← hfraction, hwhole,
      ← hsign]
  · have honconvert (c' : Cursor) := on_convert (c := c') ⟨signed.1, whole, fractional.1, scaled.1⟩
      hsigned hall hfractional hscaled hnonempty
    rw [List.append_assoc] at honfraction
    simp only [number, on_bind, Option.bind_some, honsign, honwhole, honfraction, honexponent,
      honconvert]
    simp only [Cursor.skip_skip, List.length_append, Nat.add_assoc]
    rfl

theorem exists_last_digit {digits : List Char} (all : ∀ d ∈ digits, isDigit d)
    (nonempty : digits ≠ []) (front : List Char) :
    ∃ before d, front ++ digits = before ++ [d] ∧ isDigit d :=
  ⟨front ++ digits.dropLast, digits.getLast nonempty,
    by rw [List.append_assoc, List.dropLast_append_getLast], all _ (List.getLast_mem _)⟩

theorem exists_last_of_spelling {n : Numeral} {p : List Char} (h : Spelling n p) :
    ∃ before d, p = before ++ [d] ∧ isDigit d := by
  cases h with
  | @parts _ whole sign fraction exponent _ _ signed all fractional scaled nonempty =>
    cases scaled with
    | @digits mark _ second _ _ _ hall hne =>
      have := exists_last_digit hall hne (sign ++ (whole ++ (fraction ++ mark :: second)))
      simpa using this
    | none =>
      cases fractional with
      | digits hall hne =>
        have := exists_last_digit hall hne (sign ++ (whole ++ ['.']))
        simpa using this
      | none =>
        have := exists_last_digit all (by simpa using nonempty) sign
        simpa using this

theorem startsName_digit {d : Char} (h : isDigit d) : Lexer.startsName [d] = false := by
  have hlt := Lexer.isDigit_lt h
  have hdash := (isDigit_ne h).2.1
  have hstart : isIdentStart d = false := by
    by_contra hstart
    have := Lexer.le_of_isIdentStart (c := d) (by simpa using hstart)
    omega
  have hslash : d ≠ '\\' := by
    rintro rfl
    exact absurd h (by decide)
  simp [Lexer.startsName_cons _ hdash, hstart, Lexer.startsEscape_cons, hslash]

theorem forms_numericToken (hstarts : starts c.text) :
    Forms numericToken c (Lexer.numeric c.text) := by
  obtain ⟨p, hp, hsplit, hon⟩ := on_number hstarts
  generalize hscan : scan c.text = scanned at *
  obtain ⟨n, rest⟩ := scanned
  dsimp only at hp hsplit hon
  have hmoves := Cursor.moves_skip hsplit p.length
  rw [List.drop_left] at hmoves
  cases hvalue : n.value with
  | error fault =>
    rw [Lexer.numeric_error hscan hvalue]
    refine ⟨_, ?_, hmoves⟩
    simp [numericToken, hon, hvalue]
  | ok x =>
    obtain ⟨before, d, hlast, hd⟩ := exists_last_of_spelling hp
    have hcurrent : currentChar.on (c.skip p.length) = some (.ok (some d), c.skip p.length) := by
      have hfront : c.text = before ++ d :: rest := by rw [hsplit, hlast]; simp
      simpa [hlast] using on_currentChar_skip hfront
    have hident := on_startsIdent_peek hcurrent (startsName_digit hd)
    rw [hmoves.text] at hident
    have hrun : numericToken.on c = if Lexer.startsName rest then
          (do sourced (.dimension x (String.ofList (← identSequence [])))).on (c.skip p.length)
        else if rest.head? = some '%' then (sourced (.percentage x)).on (c.skip p.length).next
        else (sourced (.number x)).on (c.skip p.length) := by
      simp only [numericToken, on_bind, hon, hvalue, Option.bind_some, on_peek, hmoves.text, hident,
        on_ite, on_consume_one, take_one_iff]
    split at hrun
    · next hname =>
      have hforms := forms_name (c := c.skip p.length) (.dimension x)
      rw [hmoves.text] at hforms
      rw [Lexer.numeric_dimension hscan hvalue hname]
      exact .of_moves hrun hmoves hforms
    · next hname =>
      split at hrun
      · next hpercent =>
        obtain ⟨others, rfl⟩ := List.head?_eq_some_iff.mp hpercent
        have hnext := Cursor.moves_next hmoves.text
        rw [Lexer.numeric_percentage hscan hvalue]
        exact .of_moves hrun (hmoves.trans hnext) (forms_sourced hnext.text _)
      · next hpercent =>
        rw [Lexer.numeric_number hscan hvalue (by simpa using hname) hpercent]
        exact .of_moves hrun hmoves (forms_sourced hmoves.text _)

end Procedure

end StyleValue
