import StyleValue.Proofs.Token.Boundary.Name
import StyleValue.Token.Numeral

/-!
# How numerals are spelled, and where they end

A spelling of a numeral is a sign, digits, a fraction and an exponent. The scanner reads a spelling
as its numeral before any text that could not have gone on with it, and it finds a spelling in
every text that starts with a numeral.
-/

set_option autoImplicit false

namespace StyleValue

namespace Numeral

open Lexer

inductive SignSpelling : Bool → List Char → Prop
  | none : SignSpelling false []
  | plus : SignSpelling false ['+']
  | minus : SignSpelling true ['-']

inductive FractionSpelling : Option (List Char) → List Char → Prop
  | none : FractionSpelling none []
  | digits {digits : List Char} (all : ∀ c ∈ digits, isDigit c) (nonempty : digits ≠ []) :
    FractionSpelling (some digits) ('.' :: digits)

inductive ExponentSpelling : Option NumeralExponent → List Char → Prop
  | none : ExponentSpelling none []
  | digits {mark : Char} {negative : Bool} {sign digits : List Char}
    (marked : mark = 'e' ∨ mark = 'E') (signed : SignSpelling negative sign)
    (all : ∀ c ∈ digits, isDigit c) (nonempty : digits ≠ []) :
    ExponentSpelling (some ⟨negative, digits⟩) (mark :: (sign ++ digits))

inductive Spelling : Numeral → List Char → Prop
  | parts {negative : Bool} {whole sign fraction exponent : List Char}
    {digits : Option (List Char)} {power : Option NumeralExponent}
    (signed : SignSpelling negative sign) (all : ∀ c ∈ whole, isDigit c)
    (fractional : FractionSpelling digits fraction) (scaled : ExponentSpelling power exponent)
    (nonempty : whole ≠ [] ∨ digits ≠ none) :
    Spelling ⟨negative, whole, digits, power⟩ (sign ++ (whole ++ (fraction ++ exponent)))

structure Ends (n : Numeral) (text : List Char) : Prop where
  digit : ∀ c ∈ text.head?, isDigit c = false
  fraction : n.isInteger → (scanFraction text).1 = none
  exponent : n.exponent = none → (scanExponent text).1 = none

theorem isDigit_ne {c : Char} (h : isDigit c) : c ≠ '+' ∧ c ≠ '-' ∧ c ≠ '.' := by
  refine ⟨?_, ?_, ?_⟩ <;>
  · rintro rfl
    revert h
    decide

theorem digits_first {digits : List Char} (all : ∀ c ∈ digits, isDigit c)
    (nonempty : digits ≠ []) (text : List Char) : (digits ++ text).head?.any isDigit := by
  obtain ⟨c, others, rfl⟩ := List.exists_cons_of_ne_nil nonempty
  simpa using all c (by simp)

theorem takeWhile_ne_nil {text : List Char} (h : text.head?.any isDigit) :
    text.takeWhile isDigit ≠ [] := by
  cases text with
  | nil => simp at h
  | cons c text =>
    have hc : isDigit c := by simpa using h
    simp [hc]

theorem scanSign_other {text : List Char} (hplus : text.head? ≠ some '+')
    (hminus : text.head? ≠ some '-') : scanSign text = (false, text) := by
  unfold scanSign
  split
  · simp at hminus
  · simp at hplus
  · rfl

theorem scanSign_spelling {negative : Bool} {sign : List Char} (h : SignSpelling negative sign)
    {text : List Char} (hplus : text.head? ≠ some '+') (hminus : text.head? ≠ some '-') :
    scanSign (sign ++ text) = (negative, text) := by
  cases h with
  | none => exact scanSign_other hplus hminus
  | plus => rfl
  | minus => rfl

theorem exists_signSpelling (text : List Char) :
    ∃ sign, SignSpelling (scanSign text).1 sign ∧ text = sign ++ (scanSign text).2 := by
  unfold scanSign
  split
  · exact ⟨_, .minus, rfl⟩
  · exact ⟨_, .plus, rfl⟩
  · exact ⟨_, .none, rfl⟩

theorem scanFraction_point (text : List Char) :
    scanFraction ('.' :: text) =
      if text.head?.any isDigit then (some (text.takeWhile isDigit), text.dropWhile isDigit)
      else (none, '.' :: text) := rfl

theorem scanFraction_other {text : List Char} (h : text.head? ≠ some '.') :
    scanFraction text = (none, text) := by
  unfold scanFraction
  split
  · simp at h
  · rfl

theorem scanFraction_none {text : List Char} (h : (scanFraction text).1 = none) :
    scanFraction text = (none, text) := by
  by_cases hpoint : text.head? = some '.'
  · obtain ⟨text, rfl⟩ := List.head?_eq_some_iff.mp hpoint
    rw [scanFraction_point] at h ⊢
    split_ifs at h ⊢ with hdigit
    rfl
  · exact scanFraction_other hpoint

theorem scanFraction_spelling {value : Option (List Char)} {fraction text : List Char}
    (h : FractionSpelling value fraction) (hdigit : ∀ c ∈ text.head?, isDigit c = false)
    (hnone : value = none → (scanFraction text).1 = none) :
    scanFraction (fraction ++ text) = (value, text) := by
  cases h with
  | none => exact scanFraction_none (hnone rfl)
  | @digits digits all nonempty =>
    rw [List.cons_append, scanFraction_point, if_pos (digits_first all nonempty text),
      takeWhile_append_boundary all hdigit, dropWhile_append_boundary all hdigit]

theorem exists_fractionSpelling (text : List Char) :
    ∃ fraction, FractionSpelling (scanFraction text).1 fraction ∧
      text = fraction ++ (scanFraction text).2 ∧
      ((scanFraction text).1 ≠ none → ∀ c ∈ (scanFraction text).2.head?, isDigit c = false) := by
  cases hvalue : (scanFraction text).1 with
  | none =>
    rw [scanFraction_none hvalue]
    exact ⟨[], .none, rfl, by simp⟩
  | some digits =>
    obtain ⟨others, rfl⟩ : ∃ others, text = '.' :: others := by
      apply List.head?_eq_some_iff.mp
      by_contra hpoint
      simp [scanFraction_other hpoint] at hvalue
    rw [scanFraction_point] at hvalue ⊢
    split_ifs at hvalue ⊢ with hfirst
    obtain rfl := Option.some.inj hvalue
    refine ⟨'.' :: others.takeWhile isDigit, ?_, ?_, fun _ => head?_dropWhile isDigit others⟩
    · exact .digits (fun c hc => List.mem_takeWhile_imp hc) (takeWhile_ne_nil hfirst)
    · rw [List.cons_append, List.takeWhile_append_dropWhile]

theorem scanExponent_mark (mark : Char) (text : List Char) :
    scanExponent (mark :: text) =
      if (mark = 'e' ∨ mark = 'E') ∧ (scanSign text).2.head?.any isDigit then
        (some ⟨(scanSign text).1, (scanSign text).2.takeWhile isDigit⟩,
          (scanSign text).2.dropWhile isDigit)
      else (none, mark :: text) := rfl

theorem scanExponent_none {text : List Char} (h : (scanExponent text).1 = none) :
    scanExponent text = (none, text) := by
  cases text with
  | nil => rfl
  | cons mark text =>
    rw [scanExponent_mark] at h ⊢
    split_ifs at h ⊢
    rfl

theorem scanExponent_spelling {value : Option NumeralExponent} {exponent text : List Char}
    (h : ExponentSpelling value exponent) (hdigit : ∀ c ∈ text.head?, isDigit c = false)
    (hnone : value = none → (scanExponent text).1 = none) :
    scanExponent (exponent ++ text) = (value, text) := by
  cases h with
  | none => exact scanExponent_none (hnone rfl)
  | @digits mark negative sign digits marked signed all nonempty =>
    have hfirst := digits_first all nonempty text
    have hsign : scanSign (sign ++ (digits ++ text)) = (negative, digits ++ text) := by
      apply scanSign_spelling signed
      · intro hplus
        rw [hplus] at hfirst
        exact absurd hfirst (by decide)
      · intro hminus
        rw [hminus] at hfirst
        exact absurd hfirst (by decide)
    rw [List.cons_append, List.append_assoc, scanExponent_mark, hsign, if_pos ⟨marked, hfirst⟩,
      takeWhile_append_boundary all hdigit, dropWhile_append_boundary all hdigit]

theorem exists_exponentSpelling (text : List Char) :
    ∃ exponent, ExponentSpelling (scanExponent text).1 exponent ∧
      text = exponent ++ (scanExponent text).2 ∧
      ((scanExponent text).1 ≠ none → ∀ c ∈ (scanExponent text).2.head?, isDigit c = false) := by
  cases hvalue : (scanExponent text).1 with
  | none =>
    rw [scanExponent_none hvalue]
    exact ⟨[], .none, rfl, by simp⟩
  | some value =>
    obtain ⟨mark, others, rfl⟩ : ∃ mark others, text = mark :: others := by
      cases text with
      | nil => simp [scanExponent] at hvalue
      | cons mark others => exact ⟨mark, others, rfl⟩
    obtain ⟨sign, hsign, hsplit⟩ := exists_signSpelling others
    rw [scanExponent_mark] at hvalue ⊢
    split_ifs at hvalue ⊢ with hmark
    obtain rfl := Option.some.inj hvalue
    refine ⟨mark :: (sign ++ (scanSign others).2.takeWhile isDigit), ?_, ?_,
      fun _ => head?_dropWhile isDigit _⟩
    · exact .digits hmark.1 hsign (fun c hc => List.mem_takeWhile_imp hc)
        (takeWhile_ne_nil hmark.2)
    · rw [List.cons_append, List.append_assoc, List.takeWhile_append_dropWhile, ← hsplit]

theorem startsUnsigned_point (text : List Char) :
    startsUnsigned ('.' :: text) = text.head?.any isDigit := by
  cases text with
  | nil => decide
  | cons c text => rfl

theorem startsUnsigned_other {c : Char} (h : c ≠ '.') (text : List Char) :
    startsUnsigned (c :: text) = isDigit c := by
  unfold startsUnsigned
  split
  · rename_i heq
    exact absurd (List.cons.inj heq).1 h
  · rename_i heq
    obtain ⟨rfl, rfl⟩ := List.cons.inj heq
    rfl
  · rename_i heq
    cases heq

theorem starts_eq (text : List Char) : starts text = startsUnsigned (scanSign text).2 := by
  unfold starts
  split
  · rfl
  · rfl
  · rename_i hplus hminus
    rw [scanSign_other]
    · intro h
      obtain ⟨others, rfl⟩ := List.head?_eq_some_iff.mp h
      exact hplus others rfl
    · intro h
      obtain ⟨others, rfl⟩ := List.head?_eq_some_iff.mp h
      exact hminus others rfl

/-- The parts after the sign, of which one has a digit. -/
theorem unsigned_first {whole fraction : List Char} {value : Option (List Char)}
    (all : ∀ c ∈ whole, isDigit c) (h : FractionSpelling value fraction)
    (nonempty : whole ≠ [] ∨ value ≠ none) (text : List Char) :
    startsUnsigned (whole ++ (fraction ++ text)) ∧
      (whole ++ (fraction ++ text)).head? ≠ some '+' ∧
      (whole ++ (fraction ++ text)).head? ≠ some '-' := by
  cases whole with
  | cons c others =>
    have hc : isDigit c := all c (by simp)
    obtain ⟨hplus, hminus, hpoint⟩ := isDigit_ne hc
    rw [List.cons_append, startsUnsigned_other hpoint]
    exact ⟨hc, by simpa using hplus, by simpa using hminus⟩
  | nil =>
    cases h with
    | none => simp at nonempty
    | digits all hdigits =>
      rw [List.nil_append, List.cons_append, startsUnsigned_point]
      exact ⟨digits_first all hdigits text, by simp, by simp⟩

theorem starts_spelling {n : Numeral} {spelling : List Char} (h : Spelling n spelling)
    (text : List Char) : starts (spelling ++ text) := by
  cases h with
  | @parts _ _ _ _ exponent _ _ signed all fractional _ nonempty =>
    obtain ⟨hstarts, hplus, hminus⟩ :=
      unsigned_first all fractional nonempty (exponent ++ text)
    rw [List.append_assoc, List.append_assoc, List.append_assoc, starts_eq,
      scanSign_spelling signed hplus hminus]
    exact hstarts

theorem scan_eq {text unsigned afterFraction rest : List Char} {negative : Bool}
    {digits : Option (List Char)} {power : Option NumeralExponent}
    (hsign : scanSign text = (negative, unsigned))
    (hfraction : scanFraction (unsigned.dropWhile isDigit) = (digits, afterFraction))
    (hexponent : scanExponent afterFraction = (power, rest)) :
    scan text = (⟨negative, unsigned.takeWhile isDigit, digits, power⟩, rest) := by
  simp only [scan, hsign, hfraction, hexponent]

/-- The scanner reads a spelling as its numeral, before anything that does not go on with it. -/
theorem scan_spelling {n : Numeral} {spelling text : List Char} (h : Spelling n spelling)
    (hends : Ends n text) : scan (spelling ++ text) = (n, text) := by
  cases h with
  | @parts negative whole sign fraction exponent digits power signed all fractional scaled
      nonempty =>
    have hexponent : scanExponent (exponent ++ text) = (power, text) :=
      scanExponent_spelling scaled hends.digit hends.exponent
    have hscaled : ∀ c ∈ (exponent ++ text).head?, isDigit c = false := by
      cases scaled with
      | none => exact hends.digit
      | digits marked _ _ _ => rcases marked with rfl | rfl <;> simp <;> decide
    have hfraction :
        scanFraction (fraction ++ (exponent ++ text)) = (digits, exponent ++ text) := by
      apply scanFraction_spelling fractional hscaled
      rintro rfl
      cases scaled with
      | none => exact hends.fraction rfl
      | digits marked _ _ _ =>
        rw [scanFraction_other]
        rcases marked with rfl | rfl <;> simp
    have hfirst : ∀ c ∈ (fraction ++ (exponent ++ text)).head?, isDigit c = false := by
      cases fractional with
      | none => exact hscaled
      | digits _ _ => simp; decide
    obtain ⟨-, hplus, hminus⟩ := unsigned_first all fractional nonempty (exponent ++ text)
    have hsign := scanSign_spelling signed hplus hminus
    have hdrop := dropWhile_append_boundary all hfirst
    have htake := takeWhile_append_boundary all hfirst
    rw [List.append_assoc, List.append_assoc, List.append_assoc,
      scan_eq hsign (hdrop ▸ hfraction) hexponent, htake]

theorem digits_of_startsUnsigned {text : List Char} (h : startsUnsigned text) :
    text.takeWhile isDigit ≠ [] ∨ (scanFraction (text.dropWhile isDigit)).1 ≠ none := by
  cases text with
  | nil => simp [startsUnsigned] at h
  | cons c text =>
    by_cases hpoint : c = '.'
    · subst hpoint
      rw [startsUnsigned_point] at h
      have hpoint : isDigit '.' = false := by decide
      right
      rw [List.dropWhile_cons_of_neg (by simp [hpoint]), scanFraction_point, if_pos h]
      simp
    · rw [startsUnsigned_other hpoint] at h
      exact .inl (takeWhile_ne_nil (by simpa using h))

/-- A text that starts with a numeral starts with a spelling of the numeral that is scanned. -/
theorem exists_spelling {text : List Char} (h : starts text) :
    ∃ spelling, Spelling (scan text).1 spelling ∧ text = spelling ++ (scan text).2 ∧
      Ends (scan text).1 (scan text).2 := by
  obtain ⟨sign, hsigned, hsign⟩ := exists_signSpelling text
  generalize hunsigned : scanSign text = signed at hsigned hsign
  obtain ⟨fraction, hfractional, hfraction, hafter⟩ :=
    exists_fractionSpelling (signed.2.dropWhile isDigit)
  generalize hscanned : scanFraction (signed.2.dropWhile isDigit) = fractional
    at hfractional hfraction hafter
  obtain ⟨exponent, hscaled, hexponent, hrest⟩ := exists_exponentSpelling fractional.2
  generalize hraised : scanExponent fractional.2 = scaled at hscaled hexponent hrest
  rw [starts_eq, hunsigned] at h
  have hnonempty := digits_of_startsUnsigned h
  rw [hscanned] at hnonempty
  rw [scan_eq hunsigned hscanned hraised]
  have hall : ∀ c ∈ signed.2.takeWhile isDigit, isDigit c := fun c hc => List.mem_takeWhile_imp hc
  refine ⟨_, .parts hsigned hall hfractional hscaled hnonempty, ?_, ?_⟩
  · rw [List.append_assoc, List.append_assoc, List.append_assoc, ← hexponent, ← hfraction,
      List.takeWhile_append_dropWhile, ← hsign]
  · -- Where a part is missing, what follows is what followed the part before it.
    have hwhole : fractional.1 = none → fractional.2 = signed.2.dropWhile isDigit := by
      rw [← hscanned]
      intro hnone
      rw [scanFraction_none hnone]
    have hpower : scaled.1 = none → scaled.2 = fractional.2 := by
      rw [← hraised]
      intro hnone
      rw [scanExponent_none hnone]
    refine ⟨?_, ?_, ?_⟩
    · by_cases hnone : scaled.1 = none
      · rw [hpower hnone]
        by_cases hinteger : fractional.1 = none
        · rw [hwhole hinteger]
          exact head?_dropWhile isDigit _
        · exact hafter hinteger
      · exact hrest hnone
    · intro hinteger
      simp only [isInteger, Bool.and_eq_true, Option.isNone_iff_eq_none] at hinteger
      rw [hpower hinteger.2, hwhole hinteger.1, hscanned]
      exact hinteger.1
    · intro hnone
      rw [hpower hnone, hraised]
      exact hnone

theorem isInert_ne {c : Char} (h : isInert c) :
    isDigit c = false ∧ c ≠ '+' ∧ c ≠ '-' ∧ c ≠ '.' ∧ c ≠ 'e' ∧ c ≠ 'E' := by
  refine ⟨?_, ?_, ?_, ?_, ?_, ?_⟩
  · by_contra hdigit
    have hident : isIdent c := by
      simp only [isDigit, isIdent, Ordinal.isIdent] at hdigit ⊢
      simp [hdigit]
    simp [isInert, hident] at h
  all_goals
    rintro rfl
    revert h
    decide

section Before

variable {y : List Char} (hy : Inert y)
include hy

theorem inert_not_digit : y.head?.any isDigit = false := by
  cases y with
  | nil => rfl
  | cons c y => simpa using (isInert_ne ((inert_cons c y).mp hy)).1

theorem digit_before (text rest : List Char) (h : (text ++ y).head?.any isDigit) :
    (text ++ rest).head?.any isDigit := by
  cases text with
  | nil => simp [inert_not_digit hy] at h
  | cons c text => exact h

/-- What a sign may stand before, and inert text does not start with, has nothing to do with what
comes after. -/
theorem scanSign_before (part : List Char → Bool) (hnot : part y = false) {rest : List Char}
    (hpart : ∀ text, part (text ++ y) → part (text ++ rest)) (text : List Char)
    (h : part (scanSign (text ++ y)).2) : part (scanSign (text ++ rest)).2 := by
  cases text with
  | nil =>
    have hsign : scanSign y = (false, y) := by
      apply scanSign_other
      · exact fun hplus => (isInert_ne (hy _ hplus)).2.1 rfl
      · exact fun hminus => (isInert_ne (hy _ hminus)).2.2.1 rfl
    rw [List.nil_append, hsign, hnot] at h
    cases h
  | cons c text =>
    by_cases hplus : c = '+'
    · subst hplus
      exact hpart text h
    by_cases hminus : c = '-'
    · subst hminus
      exact hpart text h
    have hsign (u : List Char) : scanSign (c :: u) = (false, c :: u) :=
      scanSign_other (by simpa using hplus) (by simpa using hminus)
    rw [List.cons_append, hsign] at h ⊢
    exact hpart (c :: text) h

theorem startsUnsigned_before (rest text : List Char) (h : startsUnsigned (text ++ y)) :
    startsUnsigned (text ++ rest) := by
  cases text with
  | nil =>
    cases y with
    | nil => simp [startsUnsigned] at h
    | cons c y =>
      obtain ⟨hdigit, -, -, hpoint, -⟩ := isInert_ne ((inert_cons c y).mp hy)
      rw [List.nil_append, startsUnsigned_other hpoint, hdigit] at h
      cases h
  | cons c text =>
    by_cases hpoint : c = '.'
    · subst hpoint
      rw [List.cons_append, startsUnsigned_point] at h ⊢
      exact digit_before hy text rest h
    · rwa [List.cons_append, startsUnsigned_other hpoint] at h ⊢

/-- A text that starts no numeral starts none after its end is replaced by inert text. -/
theorem starts_before (text rest : List Char) (h : starts (text ++ y)) : starts (text ++ rest) := by
  have hnot : startsUnsigned y = false := by
    by_contra hstarts
    simpa [startsUnsigned] using startsUnsigned_before hy [] [] (by simpa using hstarts)
  rw [starts_eq] at h ⊢
  exact scanSign_before hy startsUnsigned hnot (startsUnsigned_before hy rest) text h

theorem fraction_before (text rest : List Char) (h : (scanFraction (text ++ rest)).1 = none) :
    (scanFraction (text ++ y)).1 = none := by
  by_cases hpoint : (text ++ y).head? = some '.'
  · cases text with
    | nil => exact absurd rfl (isInert_ne (hy _ hpoint)).2.2.2.1
    | cons c text =>
      obtain rfl : c = '.' := by simpa using hpoint
      rw [List.cons_append, scanFraction_point] at h ⊢
      have hdigit : ¬ (text ++ y).head?.any isDigit := by
        intro hdigit
        rw [if_pos (digit_before hy text rest hdigit)] at h
        cases h
      rw [if_neg hdigit]
  · rw [scanFraction_other hpoint]

theorem exponent_before (text rest : List Char) (h : (scanExponent (text ++ rest)).1 = none) :
    (scanExponent (text ++ y)).1 = none := by
  cases text with
  | nil =>
    cases y with
    | nil => rfl
    | cons c y =>
      obtain ⟨-, -, -, -, hlower, hupper⟩ := isInert_ne ((inert_cons c y).mp hy)
      rw [List.nil_append, scanExponent_mark, if_neg (by simp [hlower, hupper])]
  | cons mark text =>
    rw [List.cons_append, scanExponent_mark] at h ⊢
    have hdigit : ¬ ((mark = 'e' ∨ mark = 'E') ∧ (scanSign (text ++ y)).2.head?.any isDigit) := by
      rintro ⟨hmark, hdigit⟩
      have hrest := scanSign_before hy (·.head?.any isDigit) (inert_not_digit hy)
        (fun u => digit_before hy u rest) text hdigit
      rw [if_pos ⟨hmark, hrest⟩] at h
      cases h
    rw [if_neg hdigit]

theorem ends_before {n : Numeral} (text rest : List Char) (h : Ends n (text ++ rest)) :
    Ends n (text ++ y) := by
  refine ⟨?_, ?_, ?_⟩
  · cases text with
    | nil => exact fun c hc => (isInert_ne (hy c hc)).1
    | cons c text => exact h.digit
  · exact fun hinteger => fraction_before hy text rest (h.fraction hinteger)
  · exact fun hnone => exponent_before hy text rest (h.exponent hnone)

end Before

end Numeral

end StyleValue
