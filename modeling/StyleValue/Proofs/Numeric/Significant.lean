import Mathlib.Algebra.Order.Floor.Semifield
import StyleValue.Numeric.Decimal
import StyleValue.Proofs.Numeric.Rounding

/-!
# Significant digits

A rational rounded to a number of significant digits is the multiple of the unit of its last digit
that is nearest to it, a half going to the even multiple. That is what becomes of the magnitude of a
decimal when its coefficient is cut to 28 digits, and the leading exponent of a decimal is the
logarithm of its magnitude.
-/

set_option autoImplicit false

namespace StyleValue

def halfEven (q : ℚ) : ℤ :=
  if Int.fract q < 1 / 2 ∨ Int.fract q = 1 / 2 ∧ Even ⌊q⌋ then ⌊q⌋ else ⌊q⌋ + 1

/-- The nearest integer is the one that is off by less than a half, or by a half and even. -/
theorem eq_halfEven_iff {q : ℚ} {n : ℤ} :
    n = halfEven q ↔ |(n : ℚ) - q| < 1 / 2 ∨ |(n : ℚ) - q| = 1 / 2 ∧ Even n := by
  have hq := Int.floor_add_fract q
  have hnonneg := Int.fract_nonneg q
  have hlt := Int.fract_lt_one q
  have hbelow : |((⌊q⌋ : ℤ) : ℚ) - q| = Int.fract q := by
    rw [abs_of_nonpos (by linarith)]
    linarith
  have habove : |((⌊q⌋ + 1 : ℤ) : ℚ) - q| = 1 - Int.fract q := by
    push_cast
    rw [abs_of_nonneg (by linarith)]
    linarith
  constructor
  · rintro rfl
    unfold halfEven
    split
    · rwa [hbelow]
    · next h =>
      push Not at h
      rw [habove]
      rcases h.1.lt_or_eq with hhalf | hhalf
      · exact .inl (by linarith)
      · exact .inr ⟨by linarith, (Int.not_even_iff_odd.1 (h.2 hhalf.symm)).add_one⟩
  · intro h
    have hhalf : |(n : ℚ) - q| ≤ 1 / 2 := h.elim le_of_lt fun h => h.1.le
    obtain ⟨hlow, hhigh⟩ := abs_le.1 hhalf
    have hcases : n = ⌊q⌋ ∨ n = ⌊q⌋ + 1 := by
      have h1 : ⌊q⌋ - 1 < n := by
        have : ((⌊q⌋ - 1 : ℤ) : ℚ) < n := by
          push_cast
          linarith
        exact_mod_cast this
      have h2 : n < ⌊q⌋ + 2 := by
        have : (n : ℚ) < ((⌊q⌋ + 2 : ℤ) : ℚ) := by
          push_cast
          linarith
        exact_mod_cast this
      omega
    rcases hcases with rfl | rfl
    · rw [hbelow] at h
      rw [halfEven, if_pos h]
    · rw [habove] at h
      rw [halfEven, if_neg]
      rintro (hless | ⟨htie, heven⟩)
      · rcases h with h | h <;> linarith [h]
      · rcases h with h | h
        · linarith
        · exact Int.not_even_iff_odd.2 heven.add_one h.2

theorem abs_halfEven_sub_le_half (q : ℚ) : |(halfEven q : ℚ) - q| ≤ 1 / 2 :=
  (eq_halfEven_iff.1 rfl).elim le_of_lt fun h => h.1.le

theorem le_halfEven {q : ℚ} {n : ℤ} (h : n ≤ q) : n ≤ halfEven q := by
  have hhalf := (abs_le.1 (abs_halfEven_sub_le_half q)).1
  have : (n : ℚ) < (halfEven q + 1 : ℤ) := by
    push_cast
    linarith
  exact Int.lt_add_one_iff.1 (by exact_mod_cast this)

theorem halfEven_le {q : ℚ} {n : ℤ} (h : q < n + 1 / 2) : halfEven q ≤ n := by
  have hhalf := (abs_le.1 (abs_halfEven_sub_le_half q)).2
  have : (halfEven q : ℚ) < (n + 1 : ℤ) := by
    push_cast
    linarith
  exact Int.lt_add_one_iff.1 (by exact_mod_cast this)

theorem halfEven_intCast (n : ℤ) : halfEven n = n :=
  (eq_halfEven_iff.2 (.inl (by simp))).symm

/-- No integer is nearer. -/
theorem abs_halfEven_sub_le (q : ℚ) (n : ℤ) : |(halfEven q : ℚ) - q| ≤ |(n : ℚ) - q| := by
  by_cases hn : |(n : ℚ) - q| < 1 / 2
  · rw [← eq_halfEven_iff.2 (.inl hn)]
  · exact (abs_halfEven_sub_le_half q).trans (not_lt.1 hn)

/-- If another integer is as near, the one chosen is even. -/
theorem even_halfEven_of_tie {q : ℚ} {n : ℤ} (hne : n ≠ halfEven q)
    (htie : |(n : ℚ) - q| = |(halfEven q : ℚ) - q|) : Even (halfEven q) := by
  rcases (eq_halfEven_iff (q := q)).1 rfl with hless | ⟨-, heven⟩
  · exact absurd (eq_halfEven_iff.2 (.inl (htie.trans_lt hless))) hne
  · exact heven

theorem halfEven_neg (q : ℚ) : halfEven (-q) = -halfEven q := by
  refine (eq_halfEven_iff.2 ?_).symm
  have h := (eq_halfEven_iff (q := q)).1 rfl
  rwa [Int.cast_neg, ← neg_sub_neg, neg_neg, neg_neg, abs_sub_comm, even_neg]

/-- A quotient of naturals is rounded to the integer nearest to it. -/
theorem halfEven_div (n d : ℕ) (hd : 0 < d) : halfEven ((n : ℚ) / d) = divideHalfEven n d := by
  have hd' : (0 : ℚ) < d := by exact_mod_cast hd
  have hlow : Int.fract ((n : ℚ) / d) < 1 / 2 ↔ 2 * (n % d) < d := by
    rw [Int.fract_div_natCast_eq_div_natCast_mod, div_lt_div_iff₀ hd' two_pos, one_mul, mul_comm]
    exact_mod_cast Iff.rfl
  have htie : Int.fract ((n : ℚ) / d) = 1 / 2 ↔ 2 * (n % d) = d := by
    rw [Int.fract_div_natCast_eq_div_natCast_mod, div_eq_div_iff hd'.ne' two_ne_zero, one_mul,
      mul_comm]
    exact_mod_cast Iff.rfl
  have hfloor : ⌊(n : ℚ) / d⌋ = ((n / d : ℕ) : ℤ) := by
    rw [Rat.floor_natCast_div_natCast]
    rfl
  have heven : Even ((n / d : ℕ) : ℤ) ↔ n / d % 2 = 0 := by
    rw [Int.even_coe_nat, Nat.even_iff]
  unfold halfEven divideHalfEven
  simp only [hfloor, hlow, htie, heven]
  split <;> simp

def signed (negative : Bool) (q : ℚ) : ℚ := if negative then -q else q

theorem abs_signed (negative : Bool) (q : ℚ) : |signed negative q| = |q| := by
  cases negative
  · rfl
  · exact abs_neg q

theorem abs_signed_sub_signed (negative : Bool) (p q : ℚ) :
    |signed negative p - signed negative q| = |p - q| := by
  cases negative
  · rfl
  · rw [signed, signed, if_pos rfl, if_pos rfl, neg_sub_neg, abs_sub_comm]

def significantUnit (digits : ℕ) (q : ℚ) : ℚ := 10 ^ (Int.log 10 |q| + 1 - digits)

def roundSignificant (digits : ℕ) (q : ℚ) : ℚ :=
  halfEven (q / significantUnit digits q) * significantUnit digits q

theorem significantUnit_pos (digits : ℕ) (q : ℚ) : 0 < significantUnit digits q := by
  unfold significantUnit
  positivity

theorem roundSignificant_neg (digits : ℕ) (q : ℚ) :
    roundSignificant digits (-q) = -roundSignificant digits q := by
  have hunit : significantUnit digits (-q) = significantUnit digits q := by
    rw [significantUnit, significantUnit, abs_neg]
  rw [roundSignificant, roundSignificant, hunit, neg_div, halfEven_neg, Int.cast_neg, neg_mul]

theorem roundSignificant_signed (digits : ℕ) (negative : Bool) (q : ℚ) :
    roundSignificant digits (signed negative q) = signed negative (roundSignificant digits q) := by
  cases negative
  · rfl
  · exact roundSignificant_neg digits q

theorem abs_roundSignificant_sub_le (digits : ℕ) (q : ℚ) :
    |roundSignificant digits q - q| ≤ significantUnit digits q / 2 := by
  have hunit := significantUnit_pos digits q
  have hfactor : roundSignificant digits q - q =
      (halfEven (q / significantUnit digits q) - q / significantUnit digits q) *
        significantUnit digits q := by
    rw [sub_mul, div_mul_cancel₀ _ hunit.ne', roundSignificant]
  rw [hfactor, abs_mul, abs_of_pos hunit]
  linarith [mul_le_mul_of_nonneg_right
    (abs_halfEven_sub_le_half (q / significantUnit digits q)) hunit.le]

/-- The unit of the last of some digits is small against the rational. -/
theorem significantUnit_le (digits : ℕ) (hdigits : 0 < digits) {q : ℚ} (hq : q ≠ 0) :
    significantUnit digits q ≤ |q| / 10 ^ (digits - 1) := by
  have hlow : (10 : ℚ) ^ Int.log 10 |q| ≤ |q| := by
    exact_mod_cast Int.zpow_log_le_self (b := 10) (by norm_num) (abs_pos.2 hq)
  rw [le_div_iff₀ (by positivity), significantUnit, ← zpow_natCast, ← zpow_add₀ (by norm_num)]
  refine le_of_eq_of_le ?_ hlow
  congr 1
  omega

/-- A rational that is written with few enough digits stays as it is. -/
theorem roundSignificant_of_few {digits : ℕ} {q : ℚ} {m k : ℤ} (hq : q = m * 10 ^ k)
    (hm : |m| < 10 ^ digits) : roundSignificant digits q = q := by
  have hunit := significantUnit_pos digits q
  suffices h : ∃ n : ℤ, q / significantUnit digits q = n by
    obtain ⟨n, hn⟩ := h
    rw [roundSignificant, hn, halfEven_intCast, ← hn, div_mul_cancel₀ _ hunit.ne']
  by_cases hzero : q = 0
  · exact ⟨0, by simp [hzero]⟩
  -- The unit is a lower power of ten than the one that the digits stand for.
  have hle : Int.log 10 |q| + 1 - digits ≤ k := by
    have hlow : |q| < 10 ^ (digits + k) := by
      have hm' : |(m : ℚ)| < 10 ^ digits := by exact_mod_cast hm
      rw [hq, abs_mul, abs_of_pos (by positivity : (0 : ℚ) < 10 ^ k), zpow_add₀ (by norm_num),
        zpow_natCast]
      gcongr
    have := (Int.lt_zpow_iff_log_lt (b := 10) (by norm_num) (abs_pos.2 hzero)).1
      (by exact_mod_cast hlow)
    omega
  obtain ⟨i, hi⟩ := Int.le.dest hle
  refine ⟨m * 10 ^ i, ?_⟩
  rw [div_eq_iff hunit.ne', significantUnit]
  generalize Int.log 10 |q| + 1 - (digits : ℤ) = e at hi
  rw [hq, ← hi, zpow_add₀ (by norm_num), zpow_natCast]
  push_cast
  ring

theorem roundSignificant_zero (digits : ℕ) : roundSignificant digits 0 = 0 :=
  roundSignificant_of_few (m := 0) (k := 0) (by simp) (by positivity)

theorem roundSignificant_nonneg (digits : ℕ) {q : ℚ} (h : 0 ≤ q) :
    0 ≤ roundSignificant digits q := by
  have hunit := significantUnit_pos digits q
  refine mul_nonneg ?_ hunit.le
  have hquotient : ((0 : ℤ) : ℚ) ≤ q / significantUnit digits q := by
    rw [Int.cast_zero]
    exact div_nonneg h hunit.le
  exact_mod_cast le_halfEven hquotient

/-- Rounding does not go below a power of ten. -/
theorem le_roundSignificant {digits : ℕ} (hdigits : 0 < digits) {q : ℚ} {k : ℤ}
    (h : 10 ^ k ≤ q) : 10 ^ k ≤ roundSignificant digits q := by
  have hq : 0 < q := lt_of_lt_of_le (by positivity) h
  have hk : k ≤ Int.log 10 |q| := by
    rw [abs_of_pos hq]
    exact (Int.zpow_le_iff_le_log (by norm_num) hq).1 (by exact_mod_cast h)
  have hlead : (10 : ℚ) ^ Int.log 10 |q| ≤ q := by
    rw [abs_of_pos hq]
    exact_mod_cast Int.zpow_log_le_self (b := 10) (by norm_num) hq
  have hunit := significantUnit_pos digits q
  have hpower : (10 : ℚ) ^ Int.log 10 |q| =
      ((10 ^ (digits - 1) : ℤ) : ℚ) * significantUnit digits q := by
    rw [significantUnit, Int.cast_pow, Int.cast_ofNat, ← zpow_natCast, ← zpow_add₀ (by norm_num)]
    congr 1
    omega
  calc (10 : ℚ) ^ k ≤ 10 ^ Int.log 10 |q| := zpow_le_zpow_right₀ (by norm_num) hk
    _ = ((10 ^ (digits - 1) : ℤ) : ℚ) * significantUnit digits q := hpower
    _ ≤ halfEven (q / significantUnit digits q) * significantUnit digits q := by
        gcongr
        refine le_halfEven ?_
        rwa [le_div_iff₀ hunit, ← hpower]

/-- Nor does it go above one. -/
theorem roundSignificant_le {digits : ℕ} {q : ℚ} (hq : 0 < q) {k : ℤ} (h : q < 10 ^ k) :
    roundSignificant digits q ≤ 10 ^ k := by
  have hk : Int.log 10 |q| + 1 ≤ k := by
    rw [abs_of_pos hq, Int.add_one_le_iff]
    exact (Int.lt_zpow_iff_log_lt (by norm_num) hq).1 (by exact_mod_cast h)
  have hlead : q < (10 : ℚ) ^ (Int.log 10 |q| + 1) := by
    rw [abs_of_pos hq]
    exact_mod_cast Int.lt_zpow_succ_log_self (b := 10) (by norm_num) q
  have hunit := significantUnit_pos digits q
  have hpower : ((10 ^ digits : ℤ) : ℚ) * significantUnit digits q =
      10 ^ (Int.log 10 |q| + 1) := by
    rw [significantUnit, Int.cast_pow, Int.cast_ofNat, ← zpow_natCast, ← zpow_add₀ (by norm_num)]
    congr 1
    omega
  calc roundSignificant digits q
      ≤ ((10 ^ digits : ℤ) : ℚ) * significantUnit digits q := by
        unfold roundSignificant
        gcongr
        refine halfEven_le ?_
        rw [← hpower] at hlead
        have := (div_lt_iff₀ hunit).2 hlead
        linarith
    _ = 10 ^ (Int.log 10 |q| + 1) := hpower
    _ ≤ 10 ^ k := zpow_le_zpow_right₀ (by norm_num) hk

theorem tenPow_pos (n : ℕ) : 0 < tenPow n := Nat.pow_pos (by decide)

theorem cast_tenPow (n : ℕ) : (tenPow n : ℚ) = 10 ^ n := by
  show ((10 ^ n : ℕ) : ℚ) = 10 ^ n
  push_cast
  rfl

theorem digitCount_le_iff {n k : ℕ} (hk : 0 < k) : digitCount n ≤ k ↔ n < 10 ^ k :=
  Nat.length_toDigits_le_iff (by decide) hk

theorem digitCount_eq_log {n : ℕ} (hn : 0 < n) : digitCount n = Nat.log 10 n + 1 := by
  refine Nat.le_antisymm ?_ ?_
  · exact (digitCount_le_iff (Nat.succ_pos _)).2 (Nat.lt_pow_succ_log_self (by decide) n)
  · by_contra h
    have hcount : 0 < digitCount n := Nat.length_toDigits_pos
    have hlt := (digitCount_le_iff (n := n) (k := Nat.log 10 n) (by omega)).1 (by omega)
    exact absurd (Nat.pow_log_le_self 10 hn.ne') (by omega)

theorem ten_zpow_eq_div (e : ℤ) : (10 : ℚ) ^ e = tenPow e.toNat / tenPow (-e).toNat := by
  rw [cast_tenPow, cast_tenPow, ← zpow_eq_div]

/-- A quotient in units of a power of ten, as it is put together from naturals. -/
theorem div_tenPow_eq (n d : ℕ) (e : ℤ) :
    ((n * tenPow (-e).toNat : ℕ) : ℚ) / ((d * tenPow e.toNat : ℕ) : ℚ) = (n : ℚ) / d / 10 ^ e := by
  rw [ten_zpow_eq_div, Nat.cast_mul, Nat.cast_mul, div_div_div_eq]

theorem natCeil_div (n d : ℕ) (hd : 0 < d) : ⌈(n : ℚ) / d⌉₊ = (n + d - 1) / d := by
  refine eq_of_forall_ge_iff fun k => ?_
  have hd' : (0 : ℚ) < d := by exact_mod_cast hd
  rw [Nat.ceil_le, div_le_iff₀ hd', ← Nat.lt_succ_iff, Nat.div_lt_iff_lt_mul hd, Nat.succ_mul]
  have hcast : (n : ℚ) ≤ k * d ↔ n ≤ k * d := by exact_mod_cast Iff.rfl
  rw [hcast]
  omega

/-- The decimal magnitude of a quotient is one more than its logarithm. -/
theorem decimalMagnitude_eq_log {n d : ℕ} (hn : 0 < n) (hd : 0 < d) :
    decimalMagnitude n d = Int.log 10 ((n : ℚ) / d) + 1 := by
  have hd' : (0 : ℚ) < d := by exact_mod_cast hd
  unfold decimalMagnitude
  split
  · next hle =>
    have hone : 1 ≤ (n : ℚ) / d := (one_le_div hd').2 (by exact_mod_cast hle)
    rw [Int.log_of_one_le_right _ hone, Nat.floor_div_eq_div,
      digitCount_eq_log (Nat.div_pos hle hd)]
    rfl
  · next hlt =>
    have hone : (n : ℚ) / d ≤ 1 := (div_le_one hd').2 (by exact_mod_cast (not_le.1 hlt).le)
    rw [Int.log_of_right_le_one _ hone, inv_div, natCeil_div d n hn]
    have htwo : 2 ≤ (d + n - 1) / n := (Nat.le_div_iff_mul_le hn).2 (by omega)
    generalize (d + n - 1) / n = c at htwo ⊢
    have hcount : 0 < digitCount (c - 1) := Nat.length_toDigits_pos
    have hlog : 0 < Nat.clog 10 c := Nat.clog_pos (by decide) htwo
    have hsame : digitCount (c - 1) = Nat.clog 10 c := by
      refine le_antisymm ?_ ?_
      · rw [digitCount_le_iff hlog]
        have := (Nat.clog_le_iff_le_pow (b := 10) (by decide)).1 (le_refl (Nat.clog 10 c))
        omega
      · rw [Nat.clog_le_iff_le_pow (by decide)]
        have := (digitCount_le_iff hcount).1 (le_refl (digitCount (c - 1)))
        omega
    rw [hsame]
    ring

namespace Decimal

variable {d : Decimal}

theorem magnitude_nonneg (d : Decimal) : 0 ≤ d.magnitude := by
  unfold magnitude
  positivity

theorem magnitude_pos (h : d.coefficient ≠ 0) : 0 < d.magnitude := by
  have : (0 : ℚ) < d.coefficient := by exact_mod_cast Nat.pos_of_ne_zero h
  unfold magnitude
  positivity

/-- The leading exponent of a decimal is the logarithm of its magnitude. -/
theorem leadingExponent_eq_log (h : d.coefficient ≠ 0) :
    d.leadingExponent = Int.log 10 d.magnitude := by
  have hpos := Nat.pos_of_ne_zero h
  have hlead : d.leadingExponent = d.exponent + Nat.log 10 d.coefficient := by
    rw [leadingExponent, digitCount_eq_log hpos]
    push_cast
    ring
  have hmagnitude := magnitude_pos h
  have hscale : (0 : ℚ) < 10 ^ d.exponent := by positivity
  have hlow : (10 : ℚ) ^ Nat.log 10 d.coefficient ≤ d.coefficient := by
    exact_mod_cast Nat.pow_log_le_self 10 h
  have hhigh : (d.coefficient : ℚ) < 10 ^ (Nat.log 10 d.coefficient + 1) := by
    exact_mod_cast Nat.lt_pow_succ_log_self (by decide) d.coefficient
  have h1 := (Int.zpow_le_iff_le_log (b := 10) (x := d.leadingExponent) (by norm_num)
    hmagnitude).1 (by
      rw [hlead, Nat.cast_ofNat, zpow_add₀ (by norm_num), zpow_natCast, mul_comm, magnitude]
      gcongr)
  have h2 := (Int.lt_zpow_iff_log_lt (b := 10) (x := d.leadingExponent + 1) (by norm_num)
    hmagnitude).1 (by
      rw [hlead, Nat.cast_ofNat, add_assoc, zpow_add₀ (by norm_num), mul_comm, magnitude]
      have : (10 : ℚ) ^ ((Nat.log 10 d.coefficient : ℤ) + 1) =
          10 ^ (Nat.log 10 d.coefficient + 1) := by
        rw [← Nat.cast_succ, zpow_natCast]
      rw [this]
      gcongr)
  omega

/-- A leading exponent in terms of magnitudes. -/
theorem lt_leadingExponent_iff (h : d.coefficient ≠ 0) (k : ℤ) :
    k < d.leadingExponent ↔ 10 ^ (k + 1) ≤ d.magnitude := by
  rw [leadingExponent_eq_log h, ← Int.add_one_le_iff,
    ← Int.zpow_le_iff_le_log (by norm_num) (magnitude_pos h)]
  norm_num

theorem coefficient_rounded_ne_zero (h : d.coefficient ≠ 0) : d.rounded.coefficient ≠ 0 := by
  unfold rounded
  dsimp only
  split
  · exact h
  · have hpos := Nat.pos_of_ne_zero h
    have hle : tenPow (digitCount d.coefficient - precision) ≤ d.coefficient := by
      have hlog := digitCount_eq_log hpos
      calc tenPow (digitCount d.coefficient - precision) ≤ 10 ^ Nat.log 10 d.coefficient :=
            Nat.pow_le_pow_right (by decide) (by unfold precision; omega)
        _ ≤ d.coefficient := Nat.pow_log_le_self 10 h
    have hdiv := Nat.div_pos hle (tenPow_pos _)
    have hwhole := (divideHalfEven_bounds d.coefficient
      (tenPow (digitCount d.coefficient - precision))).1
    exact (hdiv.trans_le hwhole).ne'

/-- Cutting the coefficient rounds the magnitude to its significant digits. -/
theorem magnitude_rounded (d : Decimal) :
    d.rounded.magnitude = roundSignificant precision d.magnitude := by
  unfold rounded
  dsimp only
  split
  · next hsurplus =>
    have hlt : d.coefficient < 10 ^ precision :=
      (digitCount_le_iff (by decide)).1 (by omega)
    refine (roundSignificant_of_few (m := d.coefficient) (k := d.exponent) ?_ ?_).symm
    · rw [magnitude, Int.cast_natCast]
    · rw [Nat.abs_cast]
      exact_mod_cast hlt
  · next hsurplus =>
    generalize hs : digitCount d.coefficient - precision = surplus at hsurplus
    have hne : d.coefficient ≠ 0 := by
      intro hzero
      rw [hzero] at hs
      exact hsurplus (hs.symm.trans (by decide))
    have hunit : significantUnit precision d.magnitude = 10 ^ (d.exponent + surplus) := by
      rw [significantUnit, abs_of_pos (magnitude_pos hne), ← leadingExponent_eq_log hne,
        leadingExponent]
      congr 1
      omega
    have hquotient : d.magnitude / 10 ^ (d.exponent + surplus) =
        (d.coefficient : ℚ) / (tenPow surplus : ℕ) := by
      rw [magnitude, zpow_add₀ (by norm_num), zpow_natCast, cast_tenPow]
      field_simp
    rw [roundSignificant, hunit, hquotient, halfEven_div _ _ (tenPow_pos _)]
    rfl

theorem negative_rounded (d : Decimal) : d.rounded.negative = d.negative := by
  unfold rounded
  dsimp only
  split <;> rfl

theorem exponent_rounded_nonneg (h : 0 ≤ d.exponent) : 0 ≤ d.rounded.exponent := by
  unfold rounded
  dsimp only
  split
  · exact h
  · exact Int.add_nonneg h (Int.natCast_nonneg _)

/-- Nothing is cut off a decimal without a fraction. -/
theorem cast_truncate (h : 0 ≤ d.exponent) :
    (d.truncate : ℚ) = signed d.negative d.magnitude := by
  obtain ⟨k, hk⟩ := Int.eq_ofNat_of_zero_le h
  rw [truncate, if_pos h, signed, magnitude, hk, Int.toNat_natCast, zpow_natCast]
  cases d.negative <;> simp [cast_tenPow]

end Decimal

end StyleValue
