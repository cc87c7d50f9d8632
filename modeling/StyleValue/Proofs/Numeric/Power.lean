import Mathlib.Analysis.Complex.ExponentialBounds
import Mathlib.Analysis.SpecialFunctions.Log.Deriv
import Mathlib.Analysis.SpecialFunctions.Pow.Real
import StyleValue.Numeric.Elementary
import StyleValue.Proofs.Numeric.Accuracy

/-!
# The accuracy of powers

A power is computed by series in fixed point. Each term is made from the one before it with an error
of a few units, so that the sum of a hundred terms is off by some thousand units of two to the
power of -256, which is far less than the last digit of a double.
-/

set_option autoImplicit false

namespace StyleValue

namespace Series

/-- If each step adds an error of two units to a term, and each weight one, the errors of a sum
are those of its first term and these. -/
theorem abs_sum_sub_le {next weigh : Nat → Int → Int} {exact weighted : Nat → ℝ}
    (hnext : ∀ k term, |(next k term : ℝ) - exact (k + 1)| ≤ |(term : ℝ) - exact k| + 2)
    (hweigh : ∀ k term, |(weigh k term : ℝ) - weighted k| ≤ |(term : ℝ) - exact k| + 1)
    (count : Nat) (term : Int) (index : Nat) :
    |(sum next weigh term index count : ℝ) - ∑ i ∈ Finset.range count, weighted (index + i)| ≤
      count * (|(term : ℝ) - exact index| + 2 * count) := by
  induction count generalizing term index with
  | zero => simp [sum]
  | succ count ih =>
    have hfirst := hweigh index term
    have hothers := ih (next index term) (index + 1)
    have hstep := hnext index term
    have hsplit : ∑ i ∈ Finset.range (count + 1), weighted (index + i) =
        weighted index + ∑ i ∈ Finset.range count, weighted (index + 1 + i) := by
      rw [Finset.sum_range_succ', add_comm, add_zero]
      simp only [add_assoc, add_comm 1]
    rw [sum, hsplit]
    push_cast
    calc |(weigh index term : ℝ) + sum next weigh (next index term) (index + 1) count -
          (weighted index + ∑ i ∈ Finset.range count, weighted (index + 1 + i))|
        ≤ |(weigh index term : ℝ) - weighted index| +
          |(sum next weigh (next index term) (index + 1) count : ℝ) -
            ∑ i ∈ Finset.range count, weighted (index + 1 + i)| := by
          rw [add_sub_add_comm]
          exact abs_add_le _ _
      _ ≤ (|(term : ℝ) - exact index| + 1) +
          count * ((|(term : ℝ) - exact index| + 2) + 2 * count) := by
          gcongr
          exact hothers.trans (by gcongr)
      _ ≤ (count + 1) * (|(term : ℝ) - exact index| + 2 * (count + 1)) := by
          nlinarith [abs_nonneg ((term : ℝ) - exact index)]

theorem abs_intDiv_sub_le (a : Int) {b : Int} (hb : 0 < b) :
    |((a / b : Int) : ℝ) - a / b| ≤ 1 := by
  have hb' : (0 : ℝ) < b := by exact_mod_cast hb
  have hsplit : (a : ℝ) = b * (a / b : Int) + (a % b : Int) := by
    exact_mod_cast (Int.mul_ediv_add_emod a b).symm
  have hlow : (0 : ℝ) ≤ (a % b : Int) := by exact_mod_cast Int.emod_nonneg a hb.ne'
  have hhigh : ((a % b : Int) : ℝ) ≤ b := by exact_mod_cast (Int.emod_lt_of_pos a hb).le
  have hquotient : (a : ℝ) / b - (a / b : Int) = (a % b : Int) / b := by
    rw [div_sub' hb'.ne', div_left_inj' hb'.ne']
    linarith
  rw [abs_sub_comm, hquotient, abs_of_nonneg (by positivity)]
  exact div_le_one_of_le₀ hhigh hb'.le

abbrev scale : ℝ := 2 ^ 256

theorem scale_pos : 0 < scale := by positivity

theorem cast_twoPow_real (n : Nat) : ((twoPow n : Nat) : ℝ) = 2 ^ n := by
  show ((2 ^ n : Nat) : ℝ) = 2 ^ n
  push_cast
  rfl

theorem cast_twoPow_int (n : Nat) : (((twoPow n : Nat) : Int) : ℝ) = 2 ^ n := by
  exact_mod_cast cast_twoPow_real n

theorem twoPow_int_pos (n : Nat) : 0 < ((twoPow n : Nat) : Int) := by
  exact_mod_cast Nat.two_pow_pos n

/-- A term of the exponential of a fraction, from the one before it. -/
theorem abs_exponential_next_le {x : Int} {y : ℝ} (hxy : (x : ℝ) = scale * y) (hy : 0 ≤ y)
    (hy' : y ≤ 1) (k : Nat) (term : Int) :
    |((term * x / twoPow 256 / (k + 1) : Int) : ℝ) - scale * (y ^ (k + 1) / (k + 1).factorial)| ≤
      |(term : ℝ) - scale * (y ^ k / k.factorial)| + 2 := by
  have hk : (1 : ℝ) ≤ k + 1 := by
    have : (0 : ℝ) ≤ k := k.cast_nonneg
    linarith
  have hproduct := abs_intDiv_sub_le (term * x) (twoPow_int_pos 256)
  have hquotient := abs_intDiv_sub_le (term * x / twoPow 256) (show (0 : Int) < k + 1 by omega)
  rw [cast_twoPow_int] at hproduct
  push_cast at hproduct hquotient
  generalize ((term * x / twoPow 256 / (k + 1) : Int) : ℝ) = next at hquotient ⊢
  generalize ((term * x / twoPow 256 : Int) : ℝ) = product at hproduct hquotient
  have hscaled : (term : ℝ) * x / 2 ^ 256 = term * y := by
    rw [hxy]
    field_simp
  have hexact : scale * (y ^ (k + 1) / (k + 1).factorial) =
      scale * (y ^ k / k.factorial) * (y / (k + 1)) := by
    rw [Nat.factorial_succ, pow_succ]
    push_cast
    field_simp
  have hratio : |y / ((k : ℝ) + 1)| ≤ 1 := by
    rw [abs_of_nonneg (by positivity)]
    exact div_le_one_of_le₀ (hy'.trans hk) (by positivity)
  have hinverse : |1 / ((k : ℝ) + 1)| ≤ 1 := by
    rw [abs_of_nonneg (by positivity)]
    exact div_le_one_of_le₀ hk (by positivity)
  have hsplit : next - scale * (y ^ (k + 1) / (k + 1).factorial) =
      (next - product / (k + 1)) + (product - term * y) * (1 / (k + 1)) +
        (term - scale * (y ^ k / k.factorial)) * (y / (k + 1)) := by
    rw [hexact]
    ring
  rw [hscaled] at hproduct
  calc |next - scale * (y ^ (k + 1) / (k + 1).factorial)|
      ≤ |next - product / (k + 1)| + |(product - term * y) * (1 / (k + 1))| +
        |(term - scale * (y ^ k / k.factorial)) * (y / (k + 1))| := by
        rw [hsplit]
        exact abs_add_three _ _ _
    _ ≤ 1 + 1 * 1 + |(term : ℝ) - scale * (y ^ k / k.factorial)| * 1 := by
        rw [abs_mul, abs_mul]
        gcongr
    _ = |(term : ℝ) - scale * (y ^ k / k.factorial)| + 2 := by ring

/-- The remainder of the exponential series after its terms that are computed. -/
theorem abs_exp_sub_sum_le {y : ℝ} (hy : 0 ≤ y) (hy' : y ≤ 1) :
    |Real.exp y - ∑ k ∈ Finset.range 96, y ^ k / k.factorial| ≤ 1 / scale := by
  have hy1 : |y| ≤ 1 := by rwa [abs_of_nonneg hy]
  have hfactorial : (2 : ℝ) * 2 ^ 256 ≤ (Nat.factorial 96 : ℝ) := by
    have h : 2 * 2 ^ 256 ≤ Nat.factorial 96 := by decide
    exact_mod_cast h
  calc |Real.exp y - ∑ k ∈ Finset.range 96, y ^ k / k.factorial|
      ≤ |y| ^ 96 * ((Nat.succ 96 : ℝ) / (Nat.factorial 96 * (96 : Nat))) :=
        Real.exp_bound hy1 (by decide)
    _ ≤ 1 * ((Nat.succ 96 : ℝ) / (Nat.factorial 96 * (96 : Nat))) := by
        gcongr
        exact pow_le_one₀ (abs_nonneg y) hy1
    _ ≤ 1 / scale := by
        rw [one_mul, div_le_div_iff₀ (by positivity) (by positivity)]
        push_cast
        linarith

theorem abs_exponential_sub_le {x : Int} {y : ℝ} (hxy : (x : ℝ) = scale * y) (hy : 0 ≤ y)
    (hy' : y ≤ 1) : |(exponential 256 x : ℝ) - scale * Real.exp y| ≤ 2 ^ 15 := by
  have hweigh (k : Nat) (term : Int) : |(term : ℝ) - scale * (y ^ k / k.factorial)| ≤
      |(term : ℝ) - scale * (y ^ k / k.factorial)| + 1 := le_add_of_nonneg_right zero_le_one
  have hsum : |(exponential 256 x : ℝ) -
      ∑ k ∈ Finset.range 96, scale * (y ^ (0 + k) / (0 + k).factorial)| ≤
        (96 : Nat) * (|(((twoPow 256 : Nat) : Int) : ℝ) - scale * (y ^ 0 / Nat.factorial 0)| +
          2 * (96 : Nat)) :=
    abs_sum_sub_le (abs_exponential_next_le hxy hy hy') hweigh 96 _ 0
  have hstart : (((twoPow 256 : Nat) : Int) : ℝ) - scale * (y ^ 0 / Nat.factorial 0) = 0 := by
    rw [cast_twoPow_int]
    simp
  have hseries : scale * ∑ k ∈ Finset.range 96, y ^ k / k.factorial =
      ∑ k ∈ Finset.range 96, scale * (y ^ (0 + k) / (0 + k).factorial) := by
    simp [Finset.mul_sum]
  have htail : |∑ k ∈ Finset.range 96, scale * (y ^ (0 + k) / (0 + k).factorial) -
      scale * Real.exp y| ≤ 1 := by
    rw [← hseries, ← mul_sub, abs_mul, abs_of_pos scale_pos, abs_sub_comm]
    exact (mul_le_mul_of_nonneg_left (abs_exp_sub_sum_le hy hy') scale_pos.le).trans_eq
      (mul_one_div_cancel scale_pos.ne')
  rw [hstart, abs_zero] at hsum
  calc |(exponential 256 x : ℝ) - scale * Real.exp y|
      ≤ (96 : Nat) * (0 + 2 * (96 : Nat)) + 1 := (abs_sub_le _ _ _).trans (add_le_add hsum htail)
    _ ≤ 2 ^ 15 := by norm_num

theorem abs_twiceAreaTangent_next_le {n d : Nat} {t : ℝ} (hd : 0 < d) (ht : t = n / d)
    (ht1 : t ^ 2 ≤ 1) (k : Nat) (term : Int) :
    |((term * (n * n : Nat) / (d * d : Nat) : Int) : ℝ) - scale * (2 * t ^ (2 * (k + 1) + 1))| ≤
      |(term : ℝ) - scale * (2 * t ^ (2 * k + 1))| + 2 := by
  have hd' : (0 : ℝ) < d := by exact_mod_cast hd
  have hquotient := abs_intDiv_sub_le (term * (n * n : Nat))
    (show (0 : Int) < (d * d : Nat) by positivity)
  have hscaled : (term : ℝ) * (n * n) / (d * d) = term * t ^ 2 := by
    rw [ht]
    field_simp
  push_cast at hquotient ⊢
  rw [hscaled] at hquotient
  generalize ((term * (n * n) / (d * d) : Int) : ℝ) = next at hquotient ⊢
  have hsplit : next - scale * (2 * t ^ (2 * (k + 1) + 1)) =
      (next - term * t ^ 2) + (term - scale * (2 * t ^ (2 * k + 1))) * t ^ 2 := by ring
  calc |next - scale * (2 * t ^ (2 * (k + 1) + 1))|
      ≤ |next - term * t ^ 2| + |(term - scale * (2 * t ^ (2 * k + 1))) * t ^ 2| := by
        rw [hsplit]
        exact abs_add_le _ _
    _ ≤ 1 + |(term : ℝ) - scale * (2 * t ^ (2 * k + 1))| * 1 := by
        rw [abs_mul, abs_of_nonneg (sq_nonneg t)]
        gcongr
    _ ≤ |(term : ℝ) - scale * (2 * t ^ (2 * k + 1))| + 2 := by linarith

theorem abs_twiceAreaTangent_weigh_le (exact : ℝ) (k : Nat) (term : Int) :
    |((term / (2 * k + 1) : Int) : ℝ) - exact / (2 * k + 1)| ≤ |(term : ℝ) - exact| + 1 := by
  have hk : (1 : ℝ) ≤ 2 * k + 1 := by
    have : (0 : ℝ) ≤ k := k.cast_nonneg
    linarith
  have hquotient := abs_intDiv_sub_le term (show (0 : Int) < 2 * k + 1 by omega)
  push_cast at hquotient
  have hshrunk : |(term : ℝ) / (2 * k + 1) - exact / (2 * k + 1)| ≤ |(term : ℝ) - exact| := by
    have hpos : (0 : ℝ) < 2 * k + 1 := by linarith
    rw [← sub_div, abs_div, abs_of_pos hpos]
    exact div_le_self (abs_nonneg _) hk
  calc |((term / (2 * k + 1) : Int) : ℝ) - exact / (2 * k + 1)|
      ≤ 1 + |(term : ℝ) - exact| := (abs_sub_le _ _ _).trans (add_le_add hquotient hshrunk)
    _ = |(term : ℝ) - exact| + 1 := add_comm _ _

theorem abs_twiceAreaTangent_first_le {n d : Nat} {t : ℝ} (hd : 0 < d) (ht : t = n / d) :
    |(((2 * n * twoPow 256 / d : Nat) : Int) : ℝ) - scale * (2 * t ^ (2 * 0 + 1))| ≤ 1 := by
  have hquotient := abs_intDiv_sub_le ((2 * n * twoPow 256 : Nat) : Int)
    (show (0 : Int) < d by exact_mod_cast hd)
  have hscaled : (((2 * n * twoPow 256 : Nat) : Int) : ℝ) / ((d : Int) : ℝ) =
      scale * (2 * t ^ (2 * 0 + 1)) := by
    rw [ht]
    push_cast
    rw [cast_twoPow_real]
    ring
  rw [hscaled] at hquotient
  exact_mod_cast hquotient

/-- The remainder of the series of the area tangent after its terms that are computed. -/
theorem abs_areaTangent_sub_sum_le {t : ℝ} (ht : 0 ≤ t) (ht' : t ≤ 1 / 3) :
    |1 / 2 * Real.log ((1 + t) / (1 - t)) - ∑ k ∈ Finset.range 96, t ^ (2 * k + 1) / (2 * k + 1)| ≤
      1 / (2 * scale) := by
  have hpower : (4 : ℝ) * 2 ^ 256 ≤ 3 ^ 193 := by
    have h : 4 * 2 ^ 256 ≤ 3 ^ 193 := by decide
    exact_mod_cast h
  have hsquare : t ^ 2 ≤ 1 / 2 := (pow_le_pow_left₀ ht ht' 2).trans (by norm_num)
  calc |1 / 2 * Real.log ((1 + t) / (1 - t)) -
        ∑ k ∈ Finset.range 96, t ^ (2 * k + 1) / (2 * k + 1)|
      ≤ |t| ^ (2 * 96 + 1) / (1 - t ^ 2) :=
        Real.sum_range_sub_log_div_le (by rw [abs_of_nonneg ht]; linarith) 96
    _ ≤ (1 / 3) ^ 193 / (1 / 2) := by
        rw [abs_of_nonneg ht]
        gcongr
        linarith
    _ ≤ 1 / (2 * scale) := by
        rw [one_div_pow, div_div, div_le_div_iff₀ (by positivity) (by positivity)]
        linarith

theorem abs_twiceAreaTangent_sub_le {n d : Nat} {t : ℝ} (hd : 0 < d) (h : 3 * n ≤ d)
    (ht : t = n / d) :
    |(twiceAreaTangent 256 n d : ℝ) - scale * Real.log ((1 + t) / (1 - t))| ≤ 2 ^ 15 := by
  have hd' : (0 : ℝ) < d := by exact_mod_cast hd
  have ht0 : 0 ≤ t := by
    rw [ht]
    positivity
  have ht3 : t ≤ 1 / 3 := by
    rw [ht, div_le_div_iff₀ hd' (by norm_num)]
    have : (3 : ℝ) * n ≤ d := by exact_mod_cast h
    linarith
  have ht1 : t ^ 2 ≤ 1 := pow_le_one₀ ht0 (by linarith)
  have hnext := abs_twiceAreaTangent_next_le hd ht ht1
  have hweigh (k : Nat) (term : Int) :=
    abs_twiceAreaTangent_weigh_le (scale * (2 * t ^ (2 * k + 1))) k term
  have hsum : |(twiceAreaTangent 256 n d : ℝ) - ∑ k ∈ Finset.range 96,
      scale * (2 * t ^ (2 * (0 + k) + 1)) / (2 * ((0 + k : Nat) : ℝ) + 1)| ≤
        (96 : Nat) * (|(((2 * n * twoPow 256 / d : Nat) : Int) : ℝ) -
          scale * (2 * t ^ (2 * 0 + 1))| + 2 * (96 : Nat)) :=
    abs_sum_sub_le hnext hweigh 96 _ 0
  have hseries : ∑ k ∈ Finset.range 96,
      scale * (2 * t ^ (2 * (0 + k) + 1)) / (2 * ((0 + k : Nat) : ℝ) + 1) =
        2 * scale * ∑ k ∈ Finset.range 96, t ^ (2 * k + 1) / (2 * k + 1) := by
    rw [Finset.mul_sum]
    apply Finset.sum_congr rfl
    intro k _
    rw [zero_add]
    ring
  have htail : |2 * scale * ∑ k ∈ Finset.range 96, t ^ (2 * k + 1) / (2 * k + 1) -
      scale * Real.log ((1 + t) / (1 - t))| ≤ 1 := by
    have hfactor : 2 * scale * ∑ k ∈ Finset.range 96, t ^ (2 * k + 1) / (2 * k + 1) -
        scale * Real.log ((1 + t) / (1 - t)) =
          -(2 * scale) * (1 / 2 * Real.log ((1 + t) / (1 - t)) -
            ∑ k ∈ Finset.range 96, t ^ (2 * k + 1) / (2 * k + 1)) := by ring
    have hpos : 0 < 2 * scale := mul_pos two_pos scale_pos
    rw [hfactor, abs_mul, abs_neg, abs_of_pos hpos]
    exact (mul_le_mul_of_nonneg_left (abs_areaTangent_sub_sum_le ht0 ht3) hpos.le).trans_eq
      (mul_one_div_cancel hpos.ne')
  have hfirst := abs_twiceAreaTangent_first_le hd ht
  rw [hseries] at hsum
  calc |(twiceAreaTangent 256 n d : ℝ) - scale * Real.log ((1 + t) / (1 - t))|
      ≤ (96 : Nat) * (1 + 2 * (96 : Nat)) + 1 :=
        (abs_sub_le _ _ _).trans (add_le_add (hsum.trans (by gcongr)) htail)
    _ ≤ 2 ^ 15 := by norm_num

theorem abs_logarithmOfTwo_sub_le :
    |(logarithmOfTwo 256 : ℝ) - scale * Real.log 2| ≤ 2 ^ 15 := by
  have ht : (1 / 3 : ℝ) = ((1 : Nat) : ℝ) / ((3 : Nat) : ℝ) := by norm_num
  have h := abs_twiceAreaTangent_sub_le (by decide : 0 < 3) (by decide) ht
  rwa [show (1 + 1 / 3 : ℝ) / (1 - 1 / 3) = 2 by norm_num] at h

theorem areaTangent_ratio {m u : ℝ} (hm : 0 < m) (hu : 0 < u) :
    (1 + (m - u) / (m + u)) / (1 - (m - u) / (m + u)) = m / u := by
  have hsum : m + u ≠ 0 := by positivity
  have hlow : 1 - (m - u) / (m + u) = 2 * u / (m + u) := by
    field_simp
    ring
  have hhigh : 1 + (m - u) / (m + u) = 2 * m / (m + u) := by
    field_simp
    ring
  rw [hlow, hhigh, div_div_div_cancel_right₀ hsum, mul_div_mul_left _ _ two_ne_zero]

theorem abs_logarithm_sub_le {mantissa : Nat} (h : 0 < mantissa) (exponent : Int) :
    |(logarithm 256 mantissa exponent : ℝ) -
      scale * Real.log (mantissa * (2 : ℝ) ^ exponent)| ≤
        2 ^ 15 * (1 + |(exponent : ℝ) + mantissa.log2|) := by
  have hm : (0 : ℝ) < mantissa := by exact_mod_cast h
  have hlow : twoPow mantissa.log2 ≤ mantissa := Nat.log2_self_le h.ne'
  have hhigh : mantissa < 2 * twoPow mantissa.log2 := by
    have := Nat.lt_log2_self (n := mantissa)
    rw [Nat.pow_succ, Nat.mul_comm] at this
    exact this
  have hunit : (0 : ℝ) < 2 ^ mantissa.log2 := by positivity
  have hratio : ((mantissa : ℝ) - 2 ^ mantissa.log2) / (mantissa + 2 ^ mantissa.log2) =
      (mantissa - twoPow mantissa.log2 : Nat) / (mantissa + twoPow mantissa.log2 : Nat) := by
    rw [Nat.cast_sub hlow, Nat.cast_add, cast_twoPow_real]
  have hfraction := abs_twiceAreaTangent_sub_le
    (show 0 < mantissa + twoPow mantissa.log2 by omega)
    (show 3 * (mantissa - twoPow mantissa.log2) ≤ mantissa + twoPow mantissa.log2 by omega) hratio
  rw [areaTangent_ratio hm hunit] at hfraction
  have hlog : Real.log (mantissa * (2 : ℝ) ^ exponent) =
      Real.log (mantissa / 2 ^ mantissa.log2) + (exponent + mantissa.log2) * Real.log 2 := by
    rw [Real.log_mul hm.ne' (by positivity), Real.log_div hm.ne' hunit.ne', Real.log_zpow,
      Real.log_pow]
    ring
  have hsplit : (logarithm 256 mantissa exponent : ℝ) -
      scale * Real.log (mantissa * (2 : ℝ) ^ exponent) =
        (twiceAreaTangent 256 (mantissa - twoPow mantissa.log2) (mantissa + twoPow mantissa.log2) -
          scale * Real.log (mantissa / 2 ^ mantissa.log2)) +
        (exponent + mantissa.log2) * (logarithmOfTwo 256 - scale * Real.log 2) := by
    rw [hlog, logarithm]
    push_cast
    ring
  calc |(logarithm 256 mantissa exponent : ℝ) - scale * Real.log (mantissa * (2 : ℝ) ^ exponent)|
      ≤ 2 ^ 15 + |(exponent : ℝ) + mantissa.log2| * 2 ^ 15 := by
        rw [hsplit]
        apply (abs_add_le _ _).trans
        rw [abs_mul]
        exact add_le_add hfraction
          (mul_le_mul_of_nonneg_left abs_logarithmOfTwo_sub_le (abs_nonneg _))
    _ = 2 ^ 15 * (1 + |(exponent : ℝ) + mantissa.log2|) := by ring

theorem logarithmOfTwo_bounds :
    69 / 100 * scale ≤ (logarithmOfTwo 256 : ℝ) ∧ (logarithmOfTwo 256 : ℝ) ≤ scale := by
  have hnear := abs_le.1 abs_logarithmOfTwo_sub_le
  have hlow := Real.log_two_gt_d9
  have hhigh := Real.log_two_lt_d9
  constructor <;> nlinarith [scale_pos]

section

variable {log z whole two rest : ℝ} (hwhole : log = whole * two + rest)
  (hlog : |log - scale * z| ≤ 2 ^ 24)
include hwhole hlog

theorem abs_whole_le (hz : |z| ≤ 200) (htwo : 69 / 100 * scale ≤ two) (hrest : 0 ≤ rest)
    (hrest' : rest ≤ scale) : |whole| ≤ 300 := by
  have htwo0 : 0 < two := by linarith [scale_pos]
  have hproduct : whole * two = (log - scale * z) + scale * z - rest := by linarith
  have hsize : |whole| * two ≤ 202 * scale := by
    calc |whole| * two = |whole * two| := by rw [abs_mul, abs_of_pos htwo0]
      _ ≤ 2 ^ 24 + scale * 200 + scale := by
          rw [hproduct]
          apply (abs_sub _ _).trans
          apply add_le_add ((abs_add_le _ _).trans (add_le_add hlog _))
          · rwa [abs_of_nonneg hrest]
          · rw [abs_mul, abs_of_pos scale_pos]
            exact mul_le_mul_of_nonneg_left hz scale_pos.le
      _ ≤ 202 * scale := by norm_num
  by_contra hmore
  have hmany : 300 * two ≤ |whole| * two :=
    mul_le_mul_of_nonneg_right (not_le.1 hmore).le htwo0.le
  linarith [scale_pos]

theorem abs_reduced_sub_le (htwo : |two - scale * Real.log 2| ≤ 2 ^ 15) (hcount : |whole| ≤ 300) :
    |z - whole * Real.log 2 - rest / scale| ≤ 2 ^ 25 / scale := by
  have hfactor : scale * (z - whole * Real.log 2 - rest / scale) =
      -(log - scale * z) + whole * (two - scale * Real.log 2) := by
    rw [hwhole, mul_sub, mul_div_cancel₀ _ scale_pos.ne']
    ring
  have hscaled : scale * |z - whole * Real.log 2 - rest / scale| ≤ 2 ^ 25 := by
    rw [← abs_of_pos scale_pos, ← abs_mul, abs_of_pos scale_pos, hfactor]
    calc |-(log - scale * z) + whole * (two - scale * Real.log 2)| ≤ 2 ^ 24 + 300 * 2 ^ 15 := by
          apply (abs_add_le _ _).trans
          rw [abs_neg, abs_mul]
          gcongr
      _ ≤ 2 ^ 25 := by norm_num
  rwa [le_div_iff₀' scale_pos]

end

/-- The errors of the exponential of what is left, and of what is left, in the power. -/
theorem abs_scaled_sub_le {units fraction growth power : ℝ} (hpower : 0 < power)
    (hone : 1 ≤ fraction) (hunits : |units - scale * fraction| ≤ 2 ^ 15)
    (hgrowth : |growth - 1| ≤ 2 * (2 ^ 25 / scale)) :
    |units / scale * power - power * fraction * growth| ≤ power * fraction * growth / 2 ^ 100 := by
  have hfraction : |units / scale - fraction| ≤ 2 ^ 15 / scale := by
    rw [div_sub' scale_pos.ne', abs_div, abs_of_pos scale_pos]
    exact div_le_div_of_nonneg_right hunits scale_pos.le
  have hhalf : 1 / 2 ≤ growth := by
    have hsmall : 2 * (2 ^ 25 / scale) ≤ 1 / 2 := by norm_num
    linarith [(abs_le.1 hgrowth).1]
  calc |units / scale * power - power * fraction * growth|
      = power * |(units / scale - fraction) - fraction * (growth - 1)| := by
        rw [← abs_of_pos hpower, ← abs_mul, abs_of_pos hpower]
        congr 1
        ring
    _ ≤ power * (2 ^ 15 / scale + fraction * (2 * (2 ^ 25 / scale))) := by
        gcongr
        apply (abs_sub _ _).trans
        rw [abs_mul, abs_of_pos (by linarith : 0 < fraction)]
        gcongr
    _ ≤ power * (fraction * (2 ^ 15 / scale) + fraction * (2 * (2 ^ 25 / scale))) := by
        gcongr
        exact le_mul_of_one_le_left (by positivity) hone
    _ = power * fraction * (2 ^ 15 / scale + 2 * (2 ^ 25 / scale)) := by ring
    _ ≤ power * fraction * (1 / 2 / 2 ^ 100) := by
        gcongr
        norm_num
    _ ≤ power * fraction * (growth / 2 ^ 100) := by gcongr
    _ = power * fraction * growth / 2 ^ 100 := by ring

theorem exp_eq_zpow_mul (z y : ℝ) (whole : Int) :
    Real.exp z = 2 ^ whole * Real.exp y * Real.exp (z - whole * Real.log 2 - y) := by
  have hpower : (2 : ℝ) ^ whole = Real.exp (whole * Real.log 2) := by
    rw [← Real.rpow_intCast, Real.rpow_def_of_pos two_pos, mul_comm]
  rw [hpower, ← Real.exp_add, ← Real.exp_add]
  congr 1
  ring

/-- A logarithm is split into a number of logarithms of two and a fraction, whose exponential is
computed. -/
theorem abs_exponential_split_sub_le {log : Int} {z : ℝ} (hlog : |(log : ℝ) - scale * z| ≤ 2 ^ 24)
    (hz : |z| ≤ 200) :
    |(exponential 256 (log - log / logarithmOfTwo 256 * logarithmOfTwo 256) : ℝ) / scale *
      2 ^ (log / logarithmOfTwo 256) - Real.exp z| ≤ Real.exp z / 2 ^ 100 := by
  obtain ⟨hlow, hhigh⟩ := logarithmOfTwo_bounds
  have hpos : 0 < logarithmOfTwo 256 := by
    have : (0 : ℝ) < logarithmOfTwo 256 := by linarith [scale_pos]
    exact_mod_cast this
  have hrest : log - log / logarithmOfTwo 256 * logarithmOfTwo 256 = log % logarithmOfTwo 256 := by
    rw [Int.emod_def, mul_comm]
  have hrest0 : (0 : ℝ) ≤ (log % logarithmOfTwo 256 : Int) := by
    exact_mod_cast Int.emod_nonneg log hpos.ne'
  have hrest1 : ((log % logarithmOfTwo 256 : Int) : ℝ) ≤ logarithmOfTwo 256 := by
    exact_mod_cast (Int.emod_lt_of_pos log hpos).le
  have hwhole : (log : ℝ) = (log / logarithmOfTwo 256 : Int) * logarithmOfTwo 256 +
      (log % logarithmOfTwo 256 : Int) := by
    exact_mod_cast (Int.ediv_mul_add_emod log (logarithmOfTwo 256)).symm
  rw [hrest]
  generalize log / logarithmOfTwo 256 = whole at *
  generalize log % logarithmOfTwo 256 = rest at *
  have hcount := abs_whole_le hwhole hlog hz hlow hrest0 (hrest1.trans hhigh)
  have hdelta := abs_reduced_sub_le hwhole hlog abs_logarithmOfTwo_sub_le hcount
  have hy : (rest : ℝ) = scale * (rest / scale) := (mul_div_cancel₀ _ scale_pos.ne').symm
  have hy0 : 0 ≤ (rest : ℝ) / scale := div_nonneg hrest0 scale_pos.le
  have hy1 : (rest : ℝ) / scale ≤ 1 := div_le_one_of_le₀ (hrest1.trans hhigh) scale_pos.le
  have hgrowth := Real.abs_exp_sub_one_le (hdelta.trans (by norm_num))
  rw [exp_eq_zpow_mul z (rest / scale) whole]
  exact abs_scaled_sub_le (by positivity) (Real.one_le_exp hy0) (abs_exponential_sub_le hy hy0 hy1)
    (hgrowth.trans (by gcongr))

theorem abs_exponent_add_log2_le {mantissa : Nat} (h : 0 < mantissa) {exponent : Int}
    (hlog : |Real.log (mantissa * (2 : ℝ) ^ exponent)| ≤ 40) :
    |(exponent : ℝ) + mantissa.log2| ≤ 63 := by
  have hm : (0 : ℝ) < mantissa := by exact_mod_cast h
  have hlow : (mantissa.log2 : ℝ) * Real.log 2 ≤ Real.log mantissa := by
    rw [← Real.log_pow]
    apply Real.log_le_log (by positivity)
    exact_mod_cast Nat.log2_self_le h.ne'
  have hhigh : Real.log mantissa ≤ ((mantissa.log2 : ℝ) + 1) * Real.log 2 := by
    have hcast : ((mantissa.log2 : ℝ) + 1) = ((mantissa.log2 + 1 : Nat) : ℝ) := by push_cast; rfl
    rw [hcast, ← Real.log_pow]
    apply Real.log_le_log hm
    exact_mod_cast Nat.lt_log2_self.le
  have htwo := Real.log_two_gt_d9
  rw [Real.log_mul hm.ne' (by positivity), Real.log_zpow] at hlog
  obtain ⟨hlog0, hlog1⟩ := abs_le.1 hlog
  rw [abs_le]
  constructor <;> nlinarith

end Series

namespace Double

open Series

theorem cast_ofUnits (units : Int) : ((ofUnits 256 units : ℚ) : ℝ) = units / scale := by
  rw [ofUnits]
  push_cast
  rw [cast_twoPow_real]

theorem abs_power_sub_le {mantissa : Nat} {exponent : Int} {e : ℚ} (hm : 0 < mantissa)
    (hlog : |Real.log (mantissa * (2 : ℝ) ^ exponent)| ≤ 40) (he : |(e : ℝ)| ≤ 4) :
    let log := logarithm 256 mantissa exponent * e.num / e.den
    let z := e * Real.log (mantissa * (2 : ℝ) ^ exponent)
    |(exponential 256 (log - log / logarithmOfTwo 256 * logarithmOfTwo 256) : ℝ) / scale *
      2 ^ (log / logarithmOfTwo 256) - Real.exp z| ≤ Real.exp z / 2 ^ 100 := by
  intro log z
  apply abs_exponential_split_sub_le
  · have hden : (0 : Int) < e.den := by exact_mod_cast e.den_pos
    have hquotient := abs_intDiv_sub_le (logarithm 256 mantissa exponent * e.num) hden
    have hfraction : ((logarithm 256 mantissa exponent * e.num : Int) : ℝ) / ((e.den : Int) : ℝ) =
        e * logarithm 256 mantissa exponent := by
      push_cast
      rw [Rat.cast_def e]
      ring
    rw [hfraction] at hquotient
    have hseries : |e * logarithm 256 mantissa exponent - scale * z| ≤ 4 * 2 ^ 21 := by
      have hfactor : e * logarithm 256 mantissa exponent - scale * z =
          e * (logarithm 256 mantissa exponent -
            scale * Real.log (mantissa * (2 : ℝ) ^ exponent)) := by
        show _ - scale * (e * _) = _
        ring
      rw [hfactor, abs_mul]
      refine mul_le_mul he ?_ (abs_nonneg _) (by norm_num)
      calc _ ≤ 2 ^ 15 * (1 + |(exponent : ℝ) + mantissa.log2|) := abs_logarithm_sub_le hm exponent
        _ ≤ 2 ^ 15 * (1 + 63) := by
          gcongr
          exact abs_exponent_add_log2_le hm hlog
        _ = 2 ^ 21 := by norm_num
    calc |(log : ℝ) - scale * z| ≤ 1 + 4 * 2 ^ 21 :=
          (abs_sub_le _ _ _).trans (add_le_add hquotient hseries)
      _ ≤ 2 ^ 24 := by norm_num
  · rw [abs_mul]
    calc |(e : ℝ)| * |Real.log (mantissa * (2 : ℝ) ^ exponent)| ≤ 4 * 40 := by gcongr
      _ ≤ 200 := by norm_num

/-- A power to a real exponent, and the power to an exponent near it. -/
theorem abs_exp_sub_rpow_le {x e r error : ℝ} (hx : 0 < x)
    (herror : |(e - r) * Real.log x| ≤ error) (hsmall : error ≤ 1) :
    |Real.exp (e * Real.log x) - x ^ r| ≤ x ^ r * (2 * error) := by
  have hsplit : Real.exp (e * Real.log x) = x ^ r * Real.exp ((e - r) * Real.log x) := by
    rw [Real.rpow_def_of_pos hx, ← Real.exp_add]
    congr 1
    ring
  have hgrowth := Real.abs_exp_sub_one_le (herror.trans hsmall)
  have hpos : 0 ≤ x ^ r := Real.rpow_nonneg hx.le r
  calc |Real.exp (e * Real.log x) - x ^ r|
      = x ^ r * |Real.exp ((e - r) * Real.log x) - 1| := by
        rw [hsplit, ← mul_sub_one, abs_mul, abs_of_nonneg hpos]
    _ ≤ x ^ r * (2 * error) := by
        gcongr
        exact hgrowth.trans (by gcongr)

/-- A magnitude that is close to a power is rounded to a double that is. -/
theorem nearest_power_near {q : ℚ} {E P error : ℝ} (hunits : |(q : ℝ) - E| ≤ E / 2 ^ 100)
    (hexact : |E - P| ≤ P * (2 * error)) (hE : 0 < E) (hP : 0 < P) (hsmall : error ≤ 1 / 4)
    (hlimit : P ≤ 10 ^ 15) :
    (nearest false q).Near P (P * (2 * error + 1 / 2 ^ 51) + 1 / 2 ^ 53) := by
  have hE2 : E ≤ 3 / 2 * P := by nlinarith [(abs_le.1 hexact).2]
  obtain ⟨hlow, hhigh⟩ := abs_le.1 hunits
  have hq : 0 ≤ (q : ℝ) := by linarith
  have hround : (nearest false q).Near q ((2 * P + 1) / 2 ^ 53) := by
    refine nearest_near ?_ (by linarith) (by exact_mod_cast hq)
    rw [abs_of_nonneg hq]
    linarith
  refine ⟨hround.finite, ?_⟩
  calc |(nearest false q).real - P|
      ≤ (2 * P + 1) / 2 ^ 53 + (E / 2 ^ 100 + P * (2 * error)) :=
        (abs_sub_le _ _ _).trans
          (add_le_add hround.error ((abs_sub_le _ _ _).trans (add_le_add hunits hexact)))
    _ ≤ P * (2 * error + 1 / 2 ^ 51) + 1 / 2 ^ 53 := by linarith

/-- A power is as accurate as its exponent is, up to two units of the last digit. -/
theorem power_near {x e : Double} {r error : ℝ} (hx : x.isFinite) (hpos : 0 < x.real)
    (hlog : |Real.log x.real| ≤ 40) (he : |e.real| ≤ 4)
    (herror : |(e.real - r) * Real.log x.real| ≤ error) (hsmall : error ≤ 1 / 4)
    (hlimit : x.real ^ r ≤ 10 ^ 15) : ∃ y, power x e = .ok y ∧
      y.Near (x.real ^ r) (x.real ^ r * (2 * error + 1 / 2 ^ 51) + 1 / 2 ^ 53) := by
  cases x with
  | notANumber | infinite => cases hx
  | finite negative mantissa exponent hcanonical =>
    have hpositive : 0 < (Double.finite negative mantissa exponent hcanonical).value := by
      unfold real at hpos
      exact_mod_cast hpos
    obtain rfl : negative = false := by
      cases negative with
      | false => rfl
      | true =>
        have hsign := sign_value (x := .finite true mantissa exponent hcanonical)
        exact absurd hpositive (not_lt.2 hsign)
    have hreal : (Double.finite false mantissa exponent hcanonical).real =
        mantissa * (2 : ℝ) ^ exponent := by
      simp [real, value]
    have hm : 0 < mantissa := by
      apply Nat.pos_of_ne_zero
      rintro rfl
      simp [hreal] at hpos
    rw [hreal] at hpos hlog herror hlimit ⊢
    have hexact := abs_exp_sub_rpow_le hpos herror (hsmall.trans (by norm_num))
    have hunits := abs_power_sub_le hm hlog he
    rw [power, if_neg hm.ne']
    dsimp only at hunits ⊢
    unfold real at hexact
    generalize logarithm 256 mantissa exponent * e.value.num / e.value.den = log at hunits ⊢
    generalize hwhole : log / logarithmOfTwo 256 = whole at hunits ⊢
    generalize exponential 256 (log - whole * logarithmOfTwo 256) = units at hunits ⊢
    generalize hq : ofUnits 256 units * (2 : ℚ) ^ whole = q
    have hcast : (units : ℝ) / scale * 2 ^ whole = q := by
      rw [← hq, Rat.cast_mul, cast_ofUnits]
      push_cast
      rfl
    rw [hcast] at hunits
    have hP : 0 < (mantissa * (2 : ℝ) ^ exponent) ^ r := Real.rpow_pos_of_pos hpos r
    have hE := Real.exp_pos (e.value * Real.log (mantissa * (2 : ℝ) ^ exponent))
    generalize (mantissa * (2 : ℝ) ^ exponent) ^ r = P at *
    generalize Real.exp (e.value * Real.log (mantissa * (2 : ℝ) ^ exponent)) = E at *
    have hnear := nearest_power_near hunits hexact hE hP hsmall hlimit
    exact ⟨_, if_pos hnear.finite, hnear⟩

end Double

end StyleValue
