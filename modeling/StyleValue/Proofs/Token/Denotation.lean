import StyleValue.Proofs.Numeric.Nearest
import StyleValue.Proofs.Token.Boundary.Numeral

/-!
# What numerals denote

A numeral denotes a rational. Its value is that rational rounded to 28 significant digits: the
integer, or the double nearest to it. Only an integer can be out of range, and is if and only if a
million digits are not enough for it after rounding.
-/

set_option autoImplicit false

namespace StyleValue

theorem foldl_digits (digits : List Char) (n : ℕ) :
    digits.foldl (fun n c => 10 * n + (c.toNat - '0'.toNat)) n =
      n * 10 ^ digits.length + ofDigits digits := by
  induction digits generalizing n with
  | nil => simp [ofDigits]
  | cons c digits ih =>
    rw [ofDigits, List.foldl_cons, List.foldl_cons, ih, ih, List.length_cons, pow_succ]
    ring

theorem ofDigits_cons (c : Char) (digits : List Char) :
    ofDigits (c :: digits) = (c.toNat - '0'.toNat) * 10 ^ digits.length + ofDigits digits := by
  rw [ofDigits, List.foldl_cons, foldl_digits, mul_zero, zero_add]

theorem digit_lt {c : Char} (h : isDigit c) : c.toNat - '0'.toNat < 10 := by
  simp only [isDigit, Ordinal.isDigit, Bool.and_eq_true, decide_eq_true_eq] at h
  show c.toNat - 48 < 10
  omega

theorem digit_pos {c : Char} (h : isDigit c) (hne : c ≠ '0') : 0 < c.toNat - '0'.toNat := by
  simp only [isDigit, Ordinal.isDigit, Bool.and_eq_true, decide_eq_true_eq] at h
  have : c.toNat ≠ 48 := fun heq => hne (Char.toNat_inj.1 heq)
  show 0 < c.toNat - 48
  omega

theorem ofDigits_lt {digits : List Char} (all : ∀ c ∈ digits, isDigit c) :
    ofDigits digits < 10 ^ digits.length := by
  induction digits with
  | nil => decide
  | cons c digits ih =>
    have hc := digit_lt (all c (by simp))
    have hrest := ih fun c hc => all c (by simp [hc])
    rw [ofDigits_cons, List.length_cons, pow_succ]
    nlinarith

theorem ofDigits_dropWhile (digits : List Char) :
    ofDigits (digits.dropWhile (· == '0')) = ofDigits digits := by
  induction digits with
  | nil => rfl
  | cons c digits ih =>
    by_cases hc : c = '0'
    · subst hc
      rw [List.dropWhile_cons_of_pos (by simp), ih, ofDigits_cons]
      simp
    · rw [List.dropWhile_cons_of_neg (by simp [hc])]

theorem ofDigits_zeros {digits : List Char} (h : ∀ c ∈ digits, c = '0') : ofDigits digits = 0 := by
  have hdrop : digits.dropWhile (· == '0') = [] :=
    List.dropWhile_eq_nil_iff.2 fun c hc => by simp [h c hc]
  rw [← ofDigits_dropWhile, hdrop]
  rfl

theorem le_ofDigits {digits : List Char} (all : ∀ c ∈ digits, isDigit c) {k : ℕ}
    (h : k < (digits.dropWhile (· == '0')).length) : 10 ^ k ≤ ofDigits digits := by
  rw [← ofDigits_dropWhile]
  have hhead := Lexer.head?_dropWhile (· == '0') digits
  have hall : ∀ c ∈ digits.dropWhile (· == '0'), isDigit c := fun c hc =>
    all c ((List.dropWhile_suffix _).subset hc)
  cases hdigits : digits.dropWhile (· == '0') with
  | nil => simp [hdigits] at h
  | cons c others =>
    rw [hdigits] at h hhead hall
    have hc := digit_pos (hall c (by simp)) (by simpa using hhead c (by simp))
    rw [ofDigits_cons]
    calc 10 ^ k ≤ 10 ^ others.length := Nat.pow_le_pow_right (by decide) (Nat.lt_succ_iff.1 h)
      _ ≤ (c.toNat - '0'.toNat) * 10 ^ others.length := Nat.le_mul_of_pos_left _ hc
      _ ≤ _ := Nat.le_add_right _ _

namespace Numeral

def digits (n : Numeral) : List Char := n.whole ++ n.fraction.getD []

def magnitude (n : Numeral) : ℚ :=
  ofDigits n.digits * 10 ^ (n.power - (n.fraction.getD []).length)

def denoted (n : Numeral) : ℚ := signed n.negative n.magnitude

def IsOversize (n : Numeral) : Prop :=
  n.isInteger ∧ 10 ^ (1000000 : ℤ) ≤ roundSignificant Decimal.precision n.magnitude

def decimal (n : Numeral) : Decimal :=
  ⟨n.negative, ofDigits n.digits, n.mantissa.exponent + n.power⟩

theorem magnitude_decimal (n : Numeral) : n.decimal.magnitude = n.magnitude := by
  rw [Decimal.magnitude, magnitude, decimal, mantissa, neg_add_eq_sub]

theorem magnitude_nonneg (n : Numeral) : 0 ≤ n.magnitude := by
  rw [← magnitude_decimal]
  exact Decimal.magnitude_nonneg _

theorem abs_roundSignificant_denoted (digits : ℕ) (n : Numeral) :
    |roundSignificant digits n.denoted| = roundSignificant digits n.magnitude := by
  rw [denoted, roundSignificant_signed, abs_signed,
    abs_of_nonneg (roundSignificant_nonneg digits n.magnitude_nonneg)]

theorem magnitude_eq_zero {n : Numeral} (h : ofDigits n.digits = 0) : n.magnitude = 0 := by
  rw [magnitude, h, Nat.cast_zero, zero_mul]

theorem magnitude_pos {n : Numeral} (h : ofDigits n.digits ≠ 0) : 0 < n.magnitude := by
  rw [← magnitude_decimal]
  exact Decimal.magnitude_pos h

section Integer

variable {n : Numeral} (h : n.isInteger)
include h

theorem integer_parts : n.fraction.getD [] = [] ∧ n.power = 0 ∧ n.digits = n.whole := by
  simp only [isInteger, Bool.and_eq_true, Option.isNone_iff_eq_none] at h
  simp [digits, power, h]

theorem magnitude_integer : n.magnitude = ofDigits n.digits := by
  obtain ⟨hfraction, hpower, -⟩ := integer_parts h
  simp [magnitude, hfraction, hpower]

end Integer

theorem scale_of_zero {n : Numeral} (h : ofDigits n.digits = 0) :
    n.mantissa.scale n.power = some ⟨n.negative, 0, 0⟩ := by
  have hzero : n.mantissa.coefficient = 0 := h
  rw [Decimal.scale, if_pos hzero]
  rfl

/-- A mantissa is scaled to the rounded decimal of its numeral, unless that or the power of ten
alone is out of range. -/
theorem scale_of_ne_zero {n : Numeral} (h : ofDigits n.digits ≠ 0) :
    n.mantissa.scale n.power =
      if Decimal.greatestExponent < n.power then none
      else if n.power < Decimal.leastExponent then some ⟨n.negative, 0, 0⟩
      else if Decimal.greatestExponent < n.decimal.rounded.leadingExponent then none
      else some n.decimal.rounded := by
  have hnonzero : n.mantissa.coefficient ≠ 0 := h
  rw [Decimal.scale, if_neg hnonzero]
  rfl

/-- A rounded decimal is out of range if its magnitude has more than a million digits. -/
theorem leadingExponent_rounded_iff {n : Numeral} (h : ofDigits n.digits ≠ 0) :
    Decimal.greatestExponent < n.decimal.rounded.leadingExponent ↔
      10 ^ (1000000 : ℤ) ≤ roundSignificant Decimal.precision n.magnitude := by
  rw [Decimal.lt_leadingExponent_iff (Decimal.coefficient_rounded_ne_zero h),
    Decimal.magnitude_rounded, magnitude_decimal]
  rfl

theorem scale_integer {n : Numeral} (h : n.isInteger) (hne : ofDigits n.digits ≠ 0) :
    n.mantissa.scale n.power =
      if Decimal.greatestExponent < n.decimal.rounded.leadingExponent then none
      else some n.decimal.rounded := by
  have hpower := (integer_parts h).2.1
  rw [scale_of_ne_zero hne, hpower, if_neg (by decide), if_neg (by decide)]

/-- An integer that is too long is oversize. -/
theorem isOversize_of_isTooLong {n : Numeral} (all : ∀ c ∈ n.digits, isDigit c)
    (h : n.isTooLong) : n.IsOversize := by
  simp only [isTooLong, Bool.and_eq_true, decide_eq_true_eq] at h
  refine ⟨h.1, le_roundSignificant (by decide) ?_⟩
  have hlong : 1000000 < (n.digits.dropWhile (· == '0')).length := by
    have := h.2
    unfold Decimal.greatestExponent at this
    rw [significant] at this
    rw [digits]
    omega
  have hle := le_ofDigits all hlong
  rw [magnitude_integer h.1, show (1000000 : ℤ) = ((1000000 : ℕ) : ℤ) from rfl, zpow_natCast]
  exact_mod_cast hle

theorem scale_eq_none_of_isOversize {n : Numeral} (h : n.IsOversize) :
    n.mantissa.scale n.power = none := by
  have hne : ofDigits n.digits ≠ 0 := by
    intro hzero
    have hle := h.2
    rw [magnitude_eq_zero hzero, roundSignificant_zero] at hle
    exact absurd (zpow_pos (by norm_num) _) (not_lt.2 hle)
  rw [scale_integer h.1 hne, if_pos ((leadingExponent_rounded_iff hne).2 h.2)]

/-- The value of a numeral, computed also where it is too long. -/
theorem value_eq {n : Numeral} (all : ∀ c ∈ n.digits, isDigit c) :
    n.value = match n.mantissa.scale n.power with
      | some d => .ok (if n.isInteger then .integer d.truncate else .double d.toDouble)
      | none => if n.isInteger then .error .overflow else .ok (.double (.infinite n.negative)) := by
  unfold value
  split
  · next h =>
    have hoversize := isOversize_of_isTooLong all h
    rw [scale_eq_none_of_isOversize hoversize]
    exact (if_pos hoversize.1).symm
  · rfl

section Value

variable {n : Numeral} (all : ∀ c ∈ n.digits, isDigit c)
include all

/-- Only an oversize integer has no value. -/
theorem value_eq_error_iff (fault : Fault) :
    n.value = .error fault ↔ fault = .overflow ∧ n.IsOversize := by
  rw [value_eq all]
  by_cases hzero : ofDigits n.digits = 0
  · have hsmall : ¬ n.IsOversize := by
      rintro ⟨-, hle⟩
      rw [magnitude_eq_zero hzero, roundSignificant_zero] at hle
      exact absurd (zpow_pos (by norm_num) _) (not_lt.2 hle)
    rw [scale_of_zero hzero]
    simp [hsmall]
  by_cases hinteger : n.isInteger
  · rw [scale_integer hinteger hzero, IsOversize, ← leadingExponent_rounded_iff hzero]
    by_cases hrange : Decimal.greatestExponent < n.decimal.rounded.leadingExponent
    · simp [hrange, hinteger, eq_comm]
    · simp [hrange]
  · have hsmall : ¬ n.IsOversize := fun h => hinteger h.1
    cases n.mantissa.scale n.power <;> simp [hsmall, hinteger]

variable (few : n.digits.length < 100000)
include few

theorem magnitude_lt : n.magnitude < 10 ^ (n.power + 100000) := by
  have hdigits : (ofDigits n.digits : ℚ) < 10 ^ n.digits.length := by
    exact_mod_cast ofDigits_lt all
  calc n.magnitude
      < 10 ^ n.digits.length * 10 ^ (n.power - (n.fraction.getD []).length) := by
        unfold magnitude
        gcongr
    _ = 10 ^ (n.digits.length + (n.power - (n.fraction.getD []).length)) := by
        rw [zpow_add₀ (by norm_num), zpow_natCast]
    _ ≤ 10 ^ (n.power + 100000) := zpow_le_zpow_right₀ (by norm_num) (by omega)

omit all in
theorem le_magnitude (hne : ofDigits n.digits ≠ 0) : 10 ^ (n.power - 100000) ≤ n.magnitude := by
  have hfraction : (n.fraction.getD []).length ≤ n.digits.length := by simp [digits]
  have hone : (1 : ℚ) ≤ ofDigits n.digits := by exact_mod_cast Nat.one_le_iff_ne_zero.2 hne
  calc (10 : ℚ) ^ (n.power - 100000)
      ≤ 10 ^ (n.power - (n.fraction.getD []).length) :=
        zpow_le_zpow_right₀ (by norm_num) (by omega)
    _ ≤ n.magnitude := le_mul_of_one_le_left (by positivity) hone

/-- An integer of fewer than 100000 digits is rounded to 28 of them, and nothing else. -/
theorem value_integer (h : n.isInteger) :
    ∃ k : ℤ, n.value = .ok (.integer k) ∧
      (k : ℚ) = roundSignificant Decimal.precision n.denoted := by
  rw [value_eq all]
  by_cases hzero : ofDigits n.digits = 0
  · refine ⟨0, ?_, ?_⟩
    · rw [scale_of_zero hzero]
      cases n.negative <;> simp [h, Decimal.truncate]
    · rw [denoted, magnitude_eq_zero hzero, roundSignificant_signed, roundSignificant_zero]
      cases n.negative <;> simp [signed]
  · have hpower := (integer_parts h).2.1
    have hsmall : ¬ Decimal.greatestExponent < n.decimal.rounded.leadingExponent := by
      rw [leadingExponent_rounded_iff hzero, not_le]
      have hpos := magnitude_pos hzero
      have hlt := magnitude_lt all few
      rw [hpower, zero_add] at hlt
      refine (roundSignificant_le hpos hlt).trans_lt ?_
      exact zpow_lt_zpow_right₀ (by norm_num) (by norm_num)
    refine ⟨n.decimal.rounded.truncate, ?_, ?_⟩
    · rw [scale_integer h hzero, if_neg hsmall]
      simp [h]
    · have hexponent : 0 ≤ n.decimal.exponent := by
        simp [decimal, mantissa, hpower, (integer_parts h).1]
      rw [Decimal.cast_truncate (Decimal.exponent_rounded_nonneg hexponent),
        Decimal.magnitude_rounded, magnitude_decimal, denoted, roundSignificant_signed,
        Decimal.negative_rounded]
      rfl

/-- Any other number of fewer than 100000 digits before the exponent is rounded to 28 of them, and
then to the nearest double, whatever its exponent is. -/
theorem value_double (h : ¬ n.isInteger) :
    n.value = .ok (.double
      (.nearest n.negative (roundSignificant Decimal.precision n.magnitude))) := by
  rw [value_eq all]
  by_cases hzero : ofDigits n.digits = 0
  · rw [scale_of_zero hzero, magnitude_eq_zero hzero, roundSignificant_zero, Double.nearest_zero]
    simp [h, Decimal.toDouble]
  have hpos := magnitude_pos hzero
  have hbeyond {k : ℤ} (hk : 401 ≤ k) : Double.beyond ≤ 10 ^ k :=
    Decimal.beyond_le_tenPow.trans (zpow_le_zpow_right₀ (by norm_num) hk)
  rw [scale_of_ne_zero hzero]
  by_cases hlarge : Decimal.greatestExponent < n.power
  · have hle := le_roundSignificant (by decide : 0 < Decimal.precision) (le_magnitude few hzero)
    unfold Decimal.greatestExponent at hlarge
    rw [Double.nearest_of_ge ((hbeyond (by omega)).trans hle)]
    simp [hlarge, h, Decimal.greatestExponent]
  rw [if_neg hlarge]
  by_cases hsmall : n.power < Decimal.leastExponent
  · have hle : roundSignificant Decimal.precision n.magnitude ≤ _ :=
      roundSignificant_le hpos (magnitude_lt all few)
    have hnonneg := roundSignificant_nonneg Decimal.precision hpos.le
    have hhalf : (10 : ℚ) ^ (n.power + 100000) ≤ 2 ^ (-1075 : ℤ) := by
      refine le_trans ?_ Decimal.tenPow_le_half
      unfold Decimal.leastExponent at hsmall
      exact zpow_le_zpow_right₀ (by norm_num) (by omega)
    rw [if_pos hsmall, Double.nearest_of_le hnonneg (hle.trans hhalf)]
    simp [h, Decimal.toDouble]
  rw [if_neg hsmall]
  by_cases hrange : Decimal.greatestExponent < n.decimal.rounded.leadingExponent
  · have hle := (leadingExponent_rounded_iff hzero).1 hrange
    rw [if_pos hrange, Double.nearest_of_ge ((hbeyond (by norm_num)).trans hle)]
    simp [h]
  · rw [if_neg hrange, ← magnitude_decimal, ← Decimal.magnitude_rounded]
    simp only [h, Bool.false_eq_true, if_false, Decimal.toDouble_eq_nearest,
      Decimal.negative_rounded]
    rfl

end Value

theorem Spelling.all_digits {n : Numeral} {p : List Char} (h : Spelling n p) :
    ∀ c ∈ n.digits, isDigit c := by
  cases h with
  | parts signed all fractional scaled nonempty =>
    intro c hc
    rcases List.mem_append.1 hc with hc | hc
    · exact all c hc
    · cases fractional with
      | none => cases hc
      | digits hfraction => exact hfraction c hc

/-- Only integers are read as integers. -/
theorem isInteger_of_value {n : Numeral} {x : Number} (h : n.value = .ok x) :
    (∃ k, x = .integer k) ↔ n.isInteger := by
  unfold value at h
  split at h
  · cases h
  · split at h
    · cases h
      split <;> simp_all
    · split at h <;> cases h
      simp_all

end Numeral

end StyleValue
