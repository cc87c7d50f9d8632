import StyleValue.Numeric.Written
import StyleValue.Proofs.Numeric.Shortest
import StyleValue.Proofs.Text.Filter
import StyleValue.Proofs.Token.Boundary.Token
import StyleValue.Proofs.Token.Denotation
import StyleValue.Proofs.Token.Grammar

/-!
# Numbers read back

The digits of an integer are a numeral that denotes it, and the text of a decimal is a numeral of
the same sign and magnitude, wherever the point is and whether or not there is an exponent. So what
a finite double is written as is read as that double.
-/

set_option autoImplicit false

namespace StyleValue

theorem isDigit_of_mem_digitsOf {n : ℕ} {c : Char} (h : c ∈ digitsOf n) : isDigit c := by
  have hdigit := Nat.isDigit_of_mem_toDigits (by decide) (by decide) h
  simp only [Char.isDigit, Bool.and_eq_true, decide_eq_true_eq] at hdigit
  simp only [isDigit, Ordinal.isDigit, Bool.and_eq_true, decide_eq_true_eq]
  exact hdigit

theorem ofDigits_digitsOf (n : ℕ) : ofDigits (digitsOf n) = n := by
  have h := Nat.ofDigitChars_ten_toDigits (n := n)
  rwa [Nat.ofDigitChars_eq_foldl] at h

theorem digitsOf_ne_nil (n : ℕ) : digitsOf n ≠ [] := Nat.toDigits_ne_nil

theorem ofDigits_append (front back : List Char) :
    ofDigits (front ++ back) = ofDigits front * 10 ^ back.length + ofDigits back := by
  rw [ofDigits, List.foldl_append, foldl_digits]
  rfl

theorem ofDigits_zeros_append (count : ℕ) (digits : List Char) :
    ofDigits (List.replicate count '0' ++ digits) = ofDigits digits := by
  rw [ofDigits_append, ofDigits_zeros fun c hc => List.eq_of_mem_replicate hc, zero_mul, zero_add]

theorem ofDigits_append_zeros (digits : List Char) (count : ℕ) :
    ofDigits (digits ++ List.replicate count '0') = ofDigits digits * 10 ^ count := by
  rw [ofDigits_append, ofDigits_zeros fun c hc => List.eq_of_mem_replicate hc, add_zero,
    List.length_replicate]

theorem isDigit_zeros {count : ℕ} {c : Char} (h : c ∈ List.replicate count '0') : isDigit c := by
  rw [List.eq_of_mem_replicate h]
  decide

theorem isDigit_zero {c : Char} (h : c ∈ ['0']) : isDigit c := by
  rw [List.mem_singleton.1 h]
  decide

namespace Numeral

theorem SignSpelling.minusIf (negative : Bool) : SignSpelling negative (minusIf negative) := by
  cases negative
  · exact .none
  · exact .minus

theorem spelling_digitsOf (n : ℕ) : Spelling ⟨false, digitsOf n, none, none⟩ (digitsOf n) := by
  simpa using Spelling.parts .none (fun c hc => isDigit_of_mem_digitsOf hc) .none .none
    (.inl (digitsOf_ne_nil n))

def writtenExponent (power : ℤ) : NumeralExponent :=
  ⟨decide (power < 0),
    if (digitsOf power.natAbs).length < 2 then '0' :: digitsOf power.natAbs
    else digitsOf power.natAbs⟩

theorem spelling_exponentText (power : ℤ) :
    ExponentSpelling (some (writtenExponent power)) (exponentText power) := by
  have hsign : SignSpelling (decide (power < 0)) [if power < 0 then '-' else '+'] := by
    by_cases h : power < 0
    · rw [if_pos h, decide_eq_true h]
      exact .minus
    · rw [if_neg h, decide_eq_false h]
      exact .plus
  refine .digits (.inl rfl) hsign (fun c hc => ?_) ?_
  · split at hc
    · rcases List.mem_cons.1 hc with rfl | hc
      · decide
      · exact isDigit_of_mem_digitsOf hc
    · exact isDigit_of_mem_digitsOf hc
  · split
    · simp
    · exact digitsOf_ne_nil _

theorem power_writtenExponent (negative : Bool) (whole : List Char)
    (fraction : Option (List Char)) (power : ℤ) :
    Numeral.power ⟨negative, whole, fraction, some (writtenExponent power)⟩ = power := by
  have hdigits : ofDigits (writtenExponent power).digits = power.natAbs := by
    unfold writtenExponent
    dsimp only
    split
    · rw [ofDigits_cons, ofDigits_digitsOf]
      simp
    · exact ofDigits_digitsOf _
  have hsign : (writtenExponent power).negative = decide (power < 0) := rfl
  unfold Numeral.power
  dsimp only
  rw [hdigits, hsign]
  rcases lt_or_ge power 0 with h | h
  · rw [if_pos (decide_eq_true h)]
    omega
  · rw [if_neg (by simpa using h)]
    omega

structure Writes (n : Numeral) (d : Decimal) : Prop where
  fractional : ¬ n.isInteger
  negative : n.negative = d.negative
  magnitude : n.magnitude = d.magnitude
  few : n.digits.length ≤ digitCount d.coefficient + 16

theorem exists_writes_fixed {d : Decimal} (whole fraction : List Char)
    (hwhole : ∀ c ∈ whole, isDigit c) (hfraction : ∀ c ∈ fraction, isDigit c)
    (hnonempty : fraction ≠ [])
    (hmagnitude : (ofDigits (whole ++ fraction) : ℚ) * 10 ^ (-(fraction.length : ℤ)) = d.magnitude)
    (hfew : (whole ++ fraction).length ≤ digitCount d.coefficient + 16) :
    ∃ n : Numeral, n.Writes d ∧ n.Spelling (minusIf d.negative ++ (whole ++ '.' :: fraction)) := by
  refine ⟨⟨d.negative, whole, some fraction, none⟩, ⟨by simp [isInteger], rfl, ?_, hfew⟩, ?_⟩
  · rw [magnitude, power, zero_sub]
    exact hmagnitude
  · simpa using Spelling.parts (.minusIf d.negative) hwhole (.digits hfraction hnonempty) .none
      (.inr (by simp))

structure Places (digits : List Char) (point : ℤ) (d : Decimal) : Prop where
  all : ∀ c ∈ digits, isDigit c
  nonempty : digits ≠ []
  value : ofDigits digits = d.coefficient
  count : digits.length = digitCount d.coefficient
  magnitude : (d.coefficient : ℚ) * 10 ^ (point - digits.length) = d.magnitude

theorem places_digitsOf (d : Decimal) : Places (digitsOf d.coefficient)
    (if d.coefficient = 0 then 1 else ((digitsOf d.coefficient).length : ℤ) + d.exponent) d := by
  refine ⟨fun c hc => isDigit_of_mem_digitsOf hc, digitsOf_ne_nil _, ofDigits_digitsOf _, rfl, ?_⟩
  unfold Decimal.magnitude
  split
  · next hzero => rw [hzero, Nat.cast_zero, zero_mul, zero_mul]
  · rw [add_sub_cancel_left]

namespace Places

variable {d : Decimal} {digits : List Char} {point : ℤ}

theorem exists_writes_below (h : Places digits point d) (hlow : -4 < point) (hhigh : point ≤ 0) :
    ∃ n : Numeral, n.Writes d ∧ n.Spelling (minusIf d.negative ++
      ('0' :: '.' :: (List.replicate (-point).toNat '0' ++ digits))) := by
  have hzeros : ['0'] ++ List.replicate (-point).toNat '0' =
      List.replicate ((-point).toNat + 1) '0' := rfl
  have hcount := h.count
  refine exists_writes_fixed ['0'] _ (fun _ => isDigit_zero) ?_ ?_ ?_ ?_
  · exact fun c hc => (List.mem_append.1 hc).elim isDigit_zeros (h.all c)
  · exact List.append_ne_nil_of_right_ne_nil _ h.nonempty
  · rw [← h.magnitude, ← List.append_assoc, hzeros, ofDigits_zeros_append, h.value]
    congr 2
    simp only [List.length_append, List.length_replicate]
    omega
  · simp only [List.length_append, List.length_replicate, List.length_singleton]
    omega

theorem exists_writes_above (h : Places digits point d) (hlow : digits.length ≤ point.toNat)
    (hhigh : point ≤ 16) : ∃ n : Numeral, n.Writes d ∧ n.Spelling (minusIf d.negative ++
      (digits ++ List.replicate (point.toNat - digits.length) '0' ++ ['.', '0'])) := by
  have hzeros : (digits ++ List.replicate (point.toNat - digits.length) '0') ++ ['0'] =
      digits ++ List.replicate (point.toNat - digits.length + 1) '0' := by
    rw [List.append_assoc, ← List.replicate_succ']
  have hpositive := List.length_pos_iff.2 h.nonempty
  have hcount := h.count
  refine exists_writes_fixed _ ['0'] ?_ (fun _ => isDigit_zero) (by simp) ?_ ?_
  · exact fun c hc => (List.mem_append.1 hc).elim (h.all c) isDigit_zeros
  · rw [← h.magnitude, hzeros, ofDigits_append_zeros, h.value, Nat.cast_mul, Nat.cast_pow,
      mul_assoc, ← zpow_natCast, Nat.cast_ofNat, ← zpow_add₀ (by norm_num)]
    congr 2
    push_cast [List.length_singleton]
    omega
  · simp only [List.length_append, List.length_replicate, List.length_singleton]
    omega

theorem exists_writes_between (h : Places digits point d) (hlow : 0 < point)
    (hhigh : point.toNat < digits.length) : ∃ n : Numeral, n.Writes d ∧ n.Spelling
      (minusIf d.negative ++ (digits.take point.toNat ++ '.' :: digits.drop point.toNat)) := by
  have hcount := h.count
  refine exists_writes_fixed _ _ (fun c hc => h.all c (List.mem_of_mem_take hc))
    (fun c hc => h.all c (List.mem_of_mem_drop hc)) ?_ ?_ ?_
  · rw [← List.length_pos_iff, List.length_drop]
    omega
  · rw [← h.magnitude, List.take_append_drop, h.value, List.length_drop]
    congr 2
    omega
  · rw [List.take_append_drop]
    omega

/-- One digit is before the point, and an exponent behind the others. -/
theorem exists_writes_scientific {first : Char} {others after : List Char}
    {fraction : Option (List Char)} (h : Places (first :: others) point d)
    (hfraction : FractionSpelling fraction after) (hothers : fraction.getD [] = others) :
    ∃ n : Numeral, n.Writes d ∧
      n.Spelling (minusIf d.negative ++ (first :: (after ++ exponentText (point - 1)))) := by
  have hcount := h.count
  refine ⟨⟨d.negative, [first], fraction, some (writtenExponent (point - 1))⟩,
    ⟨by simp [isInteger], rfl, ?_, ?_⟩, ?_⟩
  · have hlast : point - 1 - others.length = point - (first :: others).length := by
      push_cast [List.length_cons]
      ring
    rw [Numeral.magnitude, power_writtenExponent, Numeral.digits, hothers, hlast,
      List.singleton_append, h.value, h.magnitude]
  · rw [Numeral.digits, hothers, List.singleton_append]
    omega
  · exact Spelling.parts (.minusIf d.negative)
      (fun c hc => h.all c (List.mem_cons.2 (.inl (List.mem_singleton.1 hc)))) hfraction
      (spelling_exponentText (point - 1)) (.inl (by simp))

end Places

theorem exists_writes_text (d : Decimal) : ∃ n : Numeral, n.Writes d ∧ n.Spelling d.text := by
  have h := places_digitsOf d
  unfold Decimal.text
  dsimp only
  generalize digitsOf d.coefficient = digits at h ⊢
  generalize (if d.coefficient = 0 then 1 else (digits.length : ℤ) + d.exponent) = point at h ⊢
  split
  · next hrange =>
    split
    · next hlow => exact h.exists_writes_below hrange.1 hlow
    · split
      · next hlow hshort => exact h.exists_writes_above hshort hrange.2
      · next hlow hlong => exact h.exists_writes_between (not_le.1 hlow) (not_le.1 hlong)
  · match digits, h with
    | [], h => exact absurd rfl h.nonempty
    | [first], h => exact h.exists_writes_scientific .none rfl
    | first :: second :: others, h =>
      have hfraction : FractionSpelling (some (second :: others)) ('.' :: second :: others) :=
        .digits (fun c hc => h.all c (List.mem_cons_of_mem _ hc)) (by simp)
      exact h.exists_writes_scientific hfraction rfl

/-- What writes a decimal of at most 28 digits denotes the double nearest to it. -/
theorem Writes.value {n : Numeral} {d : Decimal} (h : n.Writes d) (all : ∀ c ∈ n.digits, isDigit c)
    (hd : d.coefficient < 10 ^ 28) : n.value = .ok (.double d.toDouble) := by
  have hcount : digitCount d.coefficient ≤ 28 := (digitCount_le_iff (by decide)).2 hd
  have hfew := h.few
  rw [value_double all (by omega) h.fractional, h.negative, h.magnitude,
    roundSignificant_of_few (m := d.coefficient) (k := d.exponent) (by rw [Int.cast_natCast]; rfl)
      (by rw [Nat.abs_cast]; exact_mod_cast hd), Decimal.toDouble_eq_nearest]

end Numeral

def Denotes (text : List Char) (x : Number) : Prop :=
  ∃ n : Numeral, n.Spelling text ∧ n.value = .ok x

namespace Numeral

/-- A numeral consists of digits, signs, points and marks of exponents. -/
theorem Spelling.mem_chars {n : Numeral} {text : List Char} (h : Spelling n text) :
    ∀ c ∈ text, isDigit c ∨ c ∈ ['+', '-', '.', 'e', 'E'] := by
  have hsign {negative : Bool} {sign : List Char} (h : SignSpelling negative sign) :
      ∀ c ∈ sign, isDigit c ∨ c ∈ ['+', '-', '.', 'e', 'E'] := by
    cases h <;> simp
  cases h with
  | parts signed all fractional scaled nonempty =>
    intro c hc
    rcases List.mem_append.1 hc with hc | hc
    · exact hsign signed c hc
    rcases List.mem_append.1 hc with hc | hc
    · exact .inl (all c hc)
    rcases List.mem_append.1 hc with hc | hc
    · cases fractional with
      | none => cases hc
      | digits hdigits _ =>
        rcases List.mem_cons.1 hc with rfl | hc
        · exact .inr (by decide)
        · exact .inl (hdigits c hc)
    · cases scaled with
      | none => cases hc
      | digits marked signed hdigits _ =>
        rcases List.mem_cons.1 hc with rfl | hc
        · rcases marked with rfl | rfl <;> exact .inr (by decide)
        · exact (List.mem_append.1 hc).elim (hsign signed c) fun hc => .inl (hdigits c hc)

end Numeral

namespace Denotes

variable {text : List Char} {x : Number}

theorem ne_nil (h : Denotes text x) : text ≠ [] := by
  obtain ⟨n, hspelling, -⟩ := h
  exact hspelling.ne_nil

theorem all_isPlain (h : Denotes text x) : text.all isPlain := by
  obtain ⟨n, hspelling, -⟩ := h
  refine List.all_eq_true.2 fun c hc => ?_
  rcases hspelling.mem_chars c hc with hdigit | hmark
  · have hident : isIdent c := by
      simp only [isDigit, isIdent, Ordinal.isIdent] at hdigit ⊢
      simp [hdigit]
    exact isPlain_of_isIdent hident
  · simp only [List.mem_cons, List.not_mem_nil, or_false] at hmark
    rcases hmark with rfl | rfl | rfl | rfl | rfl <;> decide

theorem ne_slash {c : Char} {rest : List Char} (h : Denotes (c :: rest) x) : c ≠ '/' := by
  obtain ⟨n, hspelling, -⟩ := h
  rintro rfl
  exact absurd (hspelling.mem_chars '/' (by simp)) (by decide)

/-- A text that denotes a number is its token. -/
theorem token {c : Char} {rest : List Char} (h : Denotes (c :: rest) x) :
    Lexer.token false c rest = ⟨.ok (.number x), [], []⟩ := by
  obtain ⟨n, hspelling, hvalue⟩ := h
  have hstarts := Numeral.starts_spelling hspelling []
  have hends : Numeral.Ends n [] := ⟨by simp, fun _ => rfl, fun _ => rfl⟩
  have hscan := Numeral.scan_spelling hspelling hends
  rw [List.append_nil] at hstarts hscan
  rw [Lexer.token_eq_scan, (Lexer.Start.Chosen.numeral hstarts).of_eq]
  exact Lexer.numeric_number hscan hvalue rfl (by simp)

end Denotes

/-- The digits of an integer that has at most 28 of them denote it. -/
theorem denotes_digitsOf {n : ℕ} (h : n < 10 ^ 28) : Denotes (digitsOf n) (.integer n) := by
  refine ⟨_, Numeral.spelling_digitsOf n, ?_⟩
  have hcount : digitCount n ≤ 28 := (digitCount_le_iff (by decide)).2 h
  obtain ⟨k, hvalue, hk⟩ := Numeral.value_integer (Numeral.spelling_digitsOf n).all_digits
    (by simpa [Numeral.digits, digitsOf, digitCount] using hcount.trans_lt (by decide)) rfl
  have hdenoted : Numeral.denoted ⟨false, digitsOf n, none, none⟩ = n := by
    simp [Numeral.denoted, signed, Numeral.magnitude_integer, Numeral.isInteger, Numeral.digits,
      ofDigits_digitsOf]
  rw [hdenoted, roundSignificant_of_few (m := n) (k := 0) (by simp)
    (by rw [Nat.abs_cast]; exact_mod_cast h)] at hk
  obtain rfl : k = n := by exact_mod_cast hk
  exact hvalue

/-- The text of a decimal that has at most 28 digits denotes the double nearest to it. -/
theorem denotes_decimal {d : Decimal} (h : d.coefficient < 10 ^ 28) :
    Denotes d.text (.double d.toDouble) := by
  obtain ⟨n, hwrites, hspelling⟩ := Numeral.exists_writes_text d
  exact ⟨n, hspelling, hwrites.value hspelling.all_digits h⟩

/-- What a finite double is written as denotes it. -/
theorem denotes_shortest {x : Double} (hx : x.isFinite) :
    Denotes x.shortest.text (.double x) := by
  obtain ⟨hreads, hdigits⟩ := Double.toDouble_shortest hx
  have h := denotes_decimal (hdigits.trans (by decide))
  rwa [hreads] at h

end StyleValue
