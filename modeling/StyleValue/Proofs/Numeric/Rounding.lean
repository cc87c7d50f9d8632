import Mathlib.Algebra.Order.Field.Power
import Mathlib.Data.Int.Log
import Mathlib.Data.Nat.Cast.Order.Field
import Mathlib.Data.Rat.Floor
import Mathlib.Tactic.FieldSimp
import Mathlib.Tactic.Linarith
import Mathlib.Tactic.NormNum
import Mathlib.Tactic.Positivity
import Mathlib.Tactic.Ring
import StyleValue.Numeric.Double

/-!
# The range of rounding

The leading exponent of a quotient is its logarithm, so that a mantissa has 53 digits or is the
next power of two. A magnitude below a certain power of two has therefore a finite double nearest to
it, and that double is at most about twice as large.
-/

set_option autoImplicit false

namespace StyleValue

theorem twoPow_pos (n : Nat) : 0 < twoPow n := Nat.two_pow_pos n

theorem cast_twoPow (n : Nat) : (twoPow n : ℚ) = 2 ^ n := by
  show ((2 ^ n : ℕ) : ℚ) = 2 ^ n
  push_cast
  rfl

theorem zpow_eq_div (b : ℚ) (e : Int) : b ^ e = b ^ e.toNat / b ^ (-e).toNat := by
  rcases Int.le_total 0 e with h | h
  · rw [Int.toNat_eq_zero.2 (by omega : -e ≤ 0), pow_zero, div_one, ← zpow_natCast,
      Int.toNat_of_nonneg h]
  · rw [Int.toNat_eq_zero.2 h, pow_zero, one_div, ← zpow_natCast,
      Int.toNat_of_nonneg (by omega), zpow_neg, inv_inv]

theorem two_zpow_eq_div (e : Int) : (2 : ℚ) ^ e = twoPow e.toNat / twoPow (-e).toNat := by
  rw [cast_twoPow, cast_twoPow, ← zpow_eq_div]

theorem abs_eq_div (q : ℚ) : |q| = (q.num.natAbs : ℚ) / q.den := by
  rw [Nat.cast_natAbs, Int.cast_abs, ← Nat.abs_cast q.den, ← abs_div, Rat.num_div_den]

/-- A quotient in units of a power of two, as it is put together from naturals. -/
theorem scaled_eq (n d : Nat) (e : Int) :
    ((n * twoPow (-e).toNat : Nat) : ℚ) / ((d * twoPow e.toNat : Nat) : ℚ) =
      (n : ℚ) / d / 2 ^ e := by
  rw [two_zpow_eq_div, Nat.cast_mul, Nat.cast_mul, div_div_div_eq]

theorem scaled_lt_iff (n d : Nat) (hd : 0 < d) (e : Int) :
    n * twoPow (-e).toNat < d * twoPow e.toNat ↔ (n : ℚ) / d < 2 ^ e := by
  have hpos : 0 < d * twoPow e.toNat := Nat.mul_pos hd (twoPow_pos _)
  rw [← Nat.cast_lt (α := ℚ), ← div_lt_one (by exact_mod_cast hpos), scaled_eq,
    div_lt_one (by positivity)]

/-- A quotient between the powers of two that the logarithms of its parts leave. -/
theorem quotient_bounds (n d : Nat) (hn : 0 < n) (hd : 0 < d) :
    (2 : ℚ) ^ ((n.log2 : Int) - d.log2 - 1) ≤ (n : ℚ) / d ∧
      (n : ℚ) / d < 2 ^ ((n.log2 : Int) - d.log2 + 1) := by
  have hd' : (0 : ℚ) < d := by exact_mod_cast hd
  have hn_low : (2 : ℚ) ^ n.log2 ≤ n := by exact_mod_cast Nat.log2_self_le hn.ne'
  have hn_high : (n : ℚ) < 2 ^ (n.log2 + 1) := by exact_mod_cast Nat.lt_log2_self
  have hd_low : (2 : ℚ) ^ d.log2 ≤ d := by exact_mod_cast Nat.log2_self_le hd.ne'
  have hd_high : (d : ℚ) < 2 ^ (d.log2 + 1) := by exact_mod_cast Nat.lt_log2_self
  have two_ne : (2 : ℚ) ≠ 0 := two_ne_zero
  constructor
  · rw [zpow_sub_one₀ two_ne, zpow_sub₀ two_ne, zpow_natCast, zpow_natCast, ← div_eq_mul_inv,
      div_div, ← pow_succ, div_le_div_iff₀ (by positivity) hd']
    calc (2 : ℚ) ^ n.log2 * d ≤ n * d := by gcongr
      _ ≤ n * 2 ^ (d.log2 + 1) := by gcongr
  · rw [zpow_add_one₀ two_ne, zpow_sub₀ two_ne, zpow_natCast, zpow_natCast, div_mul_eq_mul_div,
      ← pow_succ, div_lt_div_iff₀ hd' (by positivity)]
    calc (n : ℚ) * 2 ^ d.log2 ≤ n * d := by gcongr
      _ < 2 ^ (n.log2 + 1) * d := by gcongr

theorem eq_log_of_bounds {q : ℚ} {e : Int} (hlow : 2 ^ e ≤ q) (hhigh : q < 2 ^ (e + 1)) :
    e = Int.log 2 q := by
  have hq : 0 < q := lt_of_lt_of_le (by positivity) hlow
  have h1 := (Int.zpow_le_iff_le_log one_lt_two hq).1 (by exact_mod_cast hlow)
  have h2 := (Int.lt_zpow_iff_log_lt one_lt_two hq).1 (by exact_mod_cast hhigh)
  omega

theorem leadingExponent_eq_log (n d : Nat) (hn : 0 < n) (hd : 0 < d) :
    leadingExponent n d = Int.log 2 ((n : ℚ) / d) := by
  obtain ⟨hlow, hhigh⟩ := quotient_bounds n d hn hd
  apply eq_log_of_bounds
  all_goals unfold leadingExponent; dsimp only; split
  · exact hlow
  · next h => exact not_lt.1 fun hlt => h ((scaled_lt_iff n d hd _).2 hlt)
  · next h =>
    rw [sub_add_cancel]
    exact (scaled_lt_iff n d hd _).1 h
  · exact hhigh

/-- A quotient that is rounded to an integer changes by one at most. -/
theorem divideHalfEven_le (n d : Nat) : (divideHalfEven n d : ℚ) ≤ (n : ℚ) / d + 1 := by
  have h : (divideHalfEven n d : ℚ) ≤ ((n / d + 1 : Nat) : ℚ) := by
    exact_mod_cast (divideHalfEven_bounds n d).2
  calc (divideHalfEven n d : ℚ) ≤ ((n / d : Nat) : ℚ) + 1 := by exact_mod_cast h
    _ ≤ (n : ℚ) / d + 1 := by gcongr; exact Nat.cast_div_le

namespace Double

theorem isFinite_ofParts {mantissa : Nat} {exponent : Int} (h : Canonical mantissa exponent)
    (negative : Bool) : (ofParts negative mantissa exponent).isFinite := by
  rw [ofParts, dif_pos h]
  rfl

theorem abs_value_ofParts_le (negative : Bool) (mantissa : Nat) (exponent : Int) :
    |(ofParts negative mantissa exponent).value| ≤ mantissa * 2 ^ exponent := by
  have hpos : (0 : ℚ) ≤ mantissa * 2 ^ exponent := by positivity
  unfold ofParts
  split
  · cases negative <;> simp [value, abs_of_nonneg hpos, neg_mul]
  · simpa [value] using hpos

def roundingExponent (q : ℚ) : Int := max (Int.log 2 q - 52) (-1074)

/-- The exponent that a rational is rounded with, as it is put together from naturals. -/
theorem max_leadingExponent {q : ℚ} (h : 0 < q.num.natAbs) :
    max (leadingExponent q.num.natAbs q.den - 52) (-1074) = roundingExponent |q| := by
  rw [leadingExponent_eq_log _ _ h q.den_pos, ← abs_eq_div, roundingExponent]

theorem scaled_lt_mantissa (q : ℚ) : q / 2 ^ roundingExponent q < 2 ^ (53 : Nat) := by
  rw [div_lt_iff₀ (by positivity), ← zpow_natCast, ← zpow_add₀ two_ne_zero]
  calc q < 2 ^ (Int.log 2 q + 1) := by exact_mod_cast Int.lt_zpow_succ_log_self one_lt_two q
    _ ≤ 2 ^ (((53 : Nat) : Int) + roundingExponent q) := by
      apply zpow_le_zpow_right₀ one_le_two
      unfold roundingExponent
      omega

theorem le_scaled_mantissa (q : ℚ) (hq : 0 < q) (h : roundingExponent q ≠ -1074) :
    2 ^ (52 : Nat) ≤ q / 2 ^ roundingExponent q := by
  rw [le_div_iff₀ (by positivity), ← zpow_natCast, ← zpow_add₀ two_ne_zero]
  calc (2 : ℚ) ^ (((52 : Nat) : Int) + roundingExponent q) = 2 ^ Int.log 2 q := by
        congr 1
        unfold roundingExponent at *
        omega
    _ ≤ q := by exact_mod_cast Int.zpow_log_le_self one_lt_two hq

theorem roundingExponent_le (q : ℚ) (hq : 0 < q) (h : q < 2 ^ (1023 : Nat)) :
    roundingExponent q ≤ 970 := by
  have hlog : Int.log 2 q < (1023 : Nat) := by
    apply (Int.lt_zpow_iff_log_lt one_lt_two hq).1
    rwa [zpow_natCast, Nat.cast_ofNat]
  unfold roundingExponent
  omega

theorem two_zpow_roundingExponent_le (q : ℚ) (hq : 0 < q) : 2 ^ roundingExponent q ≤ q + 1 := by
  rcases le_total (Int.log 2 q - 52) (-1074) with h | h
  · rw [roundingExponent, max_eq_right h]
    have : (2 : ℚ) ^ (-1074 : Int) ≤ 1 := zpow_le_one_of_nonpos₀ one_le_two (by norm_num)
    linarith
  · rw [roundingExponent, max_eq_left h]
    have h1 : (2 : ℚ) ^ (Int.log 2 q - 52) ≤ 2 ^ Int.log 2 q :=
      zpow_le_zpow_right₀ one_le_two (by omega)
    have h2 : (2 : ℚ) ^ Int.log 2 q ≤ q := by exact_mod_cast Int.zpow_log_le_self one_lt_two hq
    linarith

/-- The mantissa of a positive quotient has 53 digits or is the next power of two, unless the
exponent is the least one. -/
theorem mantissa_bounds (n d : Nat) (hn : 0 < n) (hd : 0 < d) (e : Int)
    (he : e = roundingExponent ((n : ℚ) / d)) (m : Nat)
    (hm : m = divideHalfEven (n * twoPow (-e).toNat) (d * twoPow e.toNat)) :
    m ≤ twoPow 53 ∧ (e ≠ -1074 → twoPow 52 ≤ m) ∧ (m : ℚ) * 2 ^ e ≤ 2 * ((n : ℚ) / d) + 1 := by
  have hq : (0 : ℚ) < (n : ℚ) / d := by positivity
  have hscaled := scaled_eq n d e
  have hunits : 0 < d * twoPow e.toNat := Nat.mul_pos hd (twoPow_pos _)
  have hwhole := divideHalfEven_bounds (n * twoPow (-e).toNat) (d * twoPow e.toNat)
  refine ⟨?_, ?_, ?_⟩
  · have h := scaled_lt_mantissa ((n : ℚ) / d)
    rw [← he, ← hscaled, div_lt_iff₀ (by exact_mod_cast hunits), ← cast_twoPow] at h
    have := (Nat.div_lt_iff_lt_mul hunits).2 (by exact_mod_cast h)
    omega
  · intro hne
    have h := le_scaled_mantissa ((n : ℚ) / d) hq (he ▸ hne)
    rw [← he, ← hscaled, le_div_iff₀ (by exact_mod_cast hunits), ← cast_twoPow] at h
    have := (Nat.le_div_iff_mul_le hunits).2 (by exact_mod_cast h)
    omega
  · have hunit := two_zpow_roundingExponent_le ((n : ℚ) / d) hq
    have h := divideHalfEven_le (n * twoPow (-e).toNat) (d * twoPow e.toNat)
    rw [← hm, hscaled] at h
    rw [← he] at hunit
    calc (m : ℚ) * 2 ^ e ≤ ((n : ℚ) / d / 2 ^ e + 1) * 2 ^ e := by gcongr
      _ = (n : ℚ) / d + 2 ^ e := by field_simp
      _ ≤ 2 * ((n : ℚ) / d) + 1 := by linarith

/-- A magnitude below `2 ^ 1023` is rounded to a finite double of at most about twice its size. -/
theorem nearest_bounds (negative : Bool) (q : ℚ) (h : |q| < 2 ^ (1023 : Nat)) :
    (nearest negative q).isFinite ∧ |(nearest negative q).value| ≤ 2 * |q| + 1 := by
  by_cases hzero : q.num.natAbs = 0
  · have hq : 0 ≤ 2 * |q| + 1 := by positivity
    simpa [nearest, hzero] using hq
  have hn : 0 < q.num.natAbs := Nat.pos_of_ne_zero hzero
  have habs := abs_eq_div q
  have hpos : 0 < |q| := by
    rw [habs]
    exact div_pos (by exact_mod_cast hn) (by exact_mod_cast q.den_pos)
  have hexponent := max_leadingExponent hn
  have hle := roundingExponent_le |q| hpos h
  have hge : -1074 ≤ roundingExponent |q| := le_max_right _ _
  unfold nearest
  dsimp only
  rw [if_neg hzero, hexponent]
  generalize he : roundingExponent |q| = e at hle hge
  generalize hm : divideHalfEven (q.num.natAbs * twoPow (-e).toNat) (q.den * twoPow e.toNat) = m
  obtain ⟨hmax, hmin, hvalue⟩ :=
    mantissa_bounds q.num.natAbs q.den hn q.den_pos e (by rw [← he, habs]) m hm.symm
  rw [← habs] at hvalue
  by_cases hcarry : m = twoPow 53
  · rw [if_pos hcarry]
    refine ⟨isFinite_ofParts ⟨by decide, by omega, by omega, .inl le_rfl⟩ negative, ?_⟩
    calc |(ofParts negative (twoPow 52) (e + 1)).value| ≤ (twoPow 52 : Nat) * 2 ^ (e + 1) :=
          abs_value_ofParts_le _ _ _
      _ = (m : ℚ) * 2 ^ e := by
          rw [hcarry, cast_twoPow, cast_twoPow, zpow_add_one₀ two_ne_zero]
          ring
      _ ≤ 2 * |q| + 1 := hvalue
  · rw [if_neg hcarry]
    have hcanonical : Canonical m e := by
      refine ⟨by omega, hge, by omega, ?_⟩
      by_cases hleast : e = -1074
      · exact .inr hleast
      · exact .inl (hmin hleast)
    exact ⟨isFinite_ofParts hcanonical negative, (abs_value_ofParts_le _ _ _).trans hvalue⟩

end Double

end StyleValue
