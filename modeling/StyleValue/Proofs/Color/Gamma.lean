import Mathlib.Analysis.Convex.SpecificFunctions.Basic
import StyleValue.Color.Transfer
import StyleValue.Proofs.Numeric.Power
import StyleValue.Proofs.Numeric.Range

/-!
# The sRGB transfer functions

The functions between a channel and its light as functions of real numbers, with the constants of
the computation. The two are inverse up to a jump where their linear and their curved part meet,
and light that is off by little makes a channel that is off by some thirteen times as much.
-/

set_option autoImplicit false

namespace StyleValue

section

variable {x y p : ℝ} {m n : Nat} (hp : p = m / n) (hn : n ≠ 0) (hx : 0 ≤ x) (hy : 0 ≤ y)
include hp hn hx hy

theorem rpow_le_of_pow_le (h : x ^ m ≤ y ^ n) : x ^ p ≤ y := by
  rw [hp, div_eq_mul_inv, Real.rpow_mul hx, Real.rpow_natCast, ← Real.pow_rpow_inv_natCast hy hn]
  exact Real.rpow_le_rpow (by positivity) h (by positivity)

theorem le_rpow_of_pow_le (h : y ^ n ≤ x ^ m) : y ≤ x ^ p := by
  rw [hp, div_eq_mul_inv, Real.rpow_mul hx, Real.rpow_natCast, ← Real.pow_rpow_inv_natCast hy hn]
  exact Real.rpow_le_rpow (by positivity) h (by positivity)

end

namespace Transfer

noncomputable def offset : ℝ := (0.055 : Double).real

noncomputable def gain : ℝ := (1.055 : Double).real

noncomputable def slope : ℝ := (12.92 : Double).real

noncomputable def knee : ℝ := (0.04045 : Double).real

noncomputable def kneeLight : ℝ := (0.0031308 : Double).real

theorem offset_near : (0.055 : Double).Near 0.055 (1 / 10 ^ 15) :=
  (Double.literal_near 55 3 (by norm_num) (by norm_num : (0.055 : ℝ) ≤ 1) (by norm_num)).mono
    (by norm_num)

theorem gain_near : (1.055 : Double).Near 1.055 (1 / 10 ^ 15) :=
  (Double.literal_near 1055 3 (by norm_num) (by norm_num : (1.055 : ℝ) ≤ 2) (by norm_num)).mono
    (by norm_num)

theorem slope_near : (12.92 : Double).Near 12.92 (2 / 10 ^ 15) :=
  (Double.literal_near 1292 2 (by norm_num) (by norm_num : (12.92 : ℝ) ≤ 13) (by norm_num)).mono
    (by norm_num)

theorem knee_near : (0.04045 : Double).Near 0.04045 (1 / 10 ^ 15) :=
  (Double.literal_near 4045 5 (by norm_num) (by norm_num : (0.04045 : ℝ) ≤ 1) (by norm_num)).mono
    (by norm_num)

theorem kneeLight_near : (0.0031308 : Double).Near 0.0031308 (1 / 10 ^ 15) :=
  (Double.literal_near 31308 7 (by norm_num) (by norm_num : (0.0031308 : ℝ) ≤ 1)
    (by norm_num)).mono (by norm_num)

theorem offset_bounds : 0.055 - 1 / 10 ^ 15 ≤ offset ∧ offset ≤ 0.055 + 1 / 10 ^ 15 :=
  offset_near.bounds

theorem gain_bounds : 1.055 - 1 / 10 ^ 15 ≤ gain ∧ gain ≤ 1.055 + 1 / 10 ^ 15 :=
  gain_near.bounds

theorem slope_bounds : 12.92 - 2 / 10 ^ 15 ≤ slope ∧ slope ≤ 12.92 + 2 / 10 ^ 15 :=
  slope_near.bounds

theorem knee_bounds : 0.04045 - 1 / 10 ^ 15 ≤ knee ∧ knee ≤ 0.04045 + 1 / 10 ^ 15 :=
  knee_near.bounds

theorem kneeLight_bounds :
    0.0031308 - 1 / 10 ^ 15 ≤ kneeLight ∧ kneeLight ≤ 0.0031308 + 1 / 10 ^ 15 :=
  kneeLight_near.bounds

theorem abs_real_sub_le {x : Double} {q error : ℚ} (h : |x.value - q| ≤ error) :
    |x.real - q| ≤ error := by
  unfold Double.real
  exact_mod_cast h

/-- The exponents are closer than the rounding of any number of their size. -/
theorem exponents_close : |(2.4 : Double).real - 12 / 5| ≤ 1 / 10 ^ 16 ∧
    |(1 / 2.4 : Double).real - 5 / 12| ≤ 1 / 10 ^ 16 := by
  have h : |(2.4 : Double).value - 12 / 5| ≤ 1 / 10 ^ 16 ∧
      |(1 / 2.4 : Double).value - 5 / 12| ≤ 1 / 10 ^ 16 := by
    decide +kernel
  have hdecode := abs_real_sub_le h.1
  have hencode := abs_real_sub_le h.2
  push_cast at hdecode hencode
  exact ⟨hdecode, hencode⟩

theorem decode_exponent : (12 / 5 : ℝ) = (12 : Nat) / (5 : Nat) := by norm_num

theorem encode_exponent : (5 / 12 : ℝ) = (5 : Nat) / (12 : Nat) := by norm_num

noncomputable def light (c : ℝ) : ℝ :=
  if c ≤ knee then c / slope else ((c + offset) / gain) ^ (12 / 5 : ℝ)

noncomputable def curve (l : ℝ) : ℝ := gain * l ^ (5 / 12 : ℝ) - offset

noncomputable def signal (l : ℝ) : ℝ := if kneeLight < l then curve l else slope * l

theorem curve_growth {x y : ℝ} (hx : kneeLight ≤ x) (hxy : x ≤ y) :
    0 ≤ curve y - curve x ∧ curve y - curve x ≤ 13 * (y - x) := by
  obtain ⟨hgain, hgain'⟩ := gain_bounds
  have hx' : 0.00313 ≤ x := by linarith [kneeLight_bounds.1]
  have hpos : 0 < x := by linarith
  have hpower : x ^ (5 / 12 : ℝ) ≤ 29 * x := by
    apply rpow_le_of_pow_le encode_exponent (by decide) hpos.le (by linarith)
    have hseven : (0.00313 : ℝ) ^ 7 ≤ x ^ 7 := by gcongr
    have hfive : 0 < x ^ 5 := by positivity
    calc x ^ 5 = x ^ 5 * 1 := (mul_one _).symm
      _ ≤ x ^ 5 * (29 ^ 12 * 0.00313 ^ 7) := by gcongr; norm_num
      _ ≤ x ^ 5 * (29 ^ 12 * x ^ 7) := by gcongr
      _ = (29 * x) ^ 12 := by ring
  have hgrowth : y ^ (5 / 12 : ℝ) ≤ x ^ (5 / 12 : ℝ) + 5 / 12 * 29 * (y - x) := by
    have hbernoulli : (1 + (y / x - 1)) ^ (5 / 12 : ℝ) ≤ 1 + 5 / 12 * (y / x - 1) :=
      rpow_one_add_le_one_add_mul_self (by linarith [div_nonneg (hpos.le.trans hxy) hpos.le])
        (by norm_num) (by norm_num)
    have hratio : 0 ≤ y / x - 1 := by
      rw [sub_nonneg, one_le_div hpos]
      exact hxy
    calc y ^ (5 / 12 : ℝ) = x ^ (5 / 12 : ℝ) * (1 + (y / x - 1)) ^ (5 / 12 : ℝ) := by
          rw [← Real.mul_rpow hpos.le (by linarith)]
          congr 1
          field_simp
          ring
      _ ≤ x ^ (5 / 12 : ℝ) * (1 + 5 / 12 * (y / x - 1)) := by gcongr
      _ = x ^ (5 / 12 : ℝ) + 5 / 12 * (x ^ (5 / 12 : ℝ) * (y / x - 1)) := by ring
      _ ≤ x ^ (5 / 12 : ℝ) + 5 / 12 * (29 * x * (y / x - 1)) := by gcongr
      _ = x ^ (5 / 12 : ℝ) + 5 / 12 * 29 * (y - x) := by field_simp
  have hmono : x ^ (5 / 12 : ℝ) ≤ y ^ (5 / 12 : ℝ) := by gcongr
  have hsplit : curve y - curve x = gain * (y ^ (5 / 12 : ℝ) - x ^ (5 / 12 : ℝ)) := by
    unfold curve
    ring
  rw [hsplit]
  refine ⟨mul_nonneg (by linarith) (sub_nonneg.2 hmono), ?_⟩
  calc gain * (y ^ (5 / 12 : ℝ) - x ^ (5 / 12 : ℝ)) ≤ 1.06 * (5 / 12 * 29 * (y - x)) :=
        mul_le_mul (by linarith) (by linarith) (sub_nonneg.2 hmono) (by norm_num)
    _ ≤ 13 * (y - x) := by linarith

theorem abs_curve_kneeLight_sub_le : |curve kneeLight - slope * kneeLight| ≤ 1 / 10 ^ 7 := by
  obtain ⟨hgain, hgain'⟩ := gain_bounds
  obtain ⟨hoffset, hoffset'⟩ := offset_bounds
  obtain ⟨hslope, hslope'⟩ := slope_bounds
  obtain ⟨hlight, hlight'⟩ := kneeLight_bounds
  have hpos : 0 ≤ kneeLight := by linarith
  have hlow : 0.09047384 ≤ kneeLight ^ (5 / 12 : ℝ) := by
    apply le_rpow_of_pow_le encode_exponent (by decide) hpos (by norm_num)
    calc (0.09047384 : ℝ) ^ 12 ≤ (0.0031308 - 1 / 10 ^ 15) ^ 5 := by norm_num
      _ ≤ kneeLight ^ 5 := by gcongr
  have hhigh : kneeLight ^ (5 / 12 : ℝ) ≤ 0.09047385 := by
    apply rpow_le_of_pow_le encode_exponent (by decide) hpos (by norm_num)
    calc kneeLight ^ 5 ≤ (0.0031308 + 1 / 10 ^ 15) ^ 5 := by gcongr
      _ ≤ 0.09047385 ^ 12 := by norm_num
  unfold curve
  rw [abs_le]
  constructor <;> nlinarith

/-- The curved part at one light and the linear part at another, both near where they meet. -/
theorem abs_curve_sub_slope_mul_le {x y : ℝ} (hy : kneeLight ≤ y) :
    |curve y - slope * x| ≤ 13 * (y - kneeLight) + 1 / 10 ^ 7 + 13 * |kneeLight - x| := by
  obtain ⟨hslope, hslope'⟩ := slope_bounds
  obtain ⟨hlow, hhigh⟩ := curve_growth le_rfl hy
  have hsplit : curve y - slope * x = (curve y - curve kneeLight) +
      (curve kneeLight - slope * kneeLight) + slope * (kneeLight - x) := by ring
  rw [hsplit]
  apply (abs_add_three _ _ _).trans
  rw [abs_of_nonneg hlow, abs_mul, abs_of_pos (by linarith : 0 < slope)]
  gcongr
  · exact abs_curve_kneeLight_sub_le
  · linarith

/-- Light that is off makes a channel that is off by not much more. -/
theorem abs_signal_sub_le {x y : ℝ} (hxy : x ≤ y) :
    |signal y - signal x| ≤ 13 * (y - x) + 1 / 10 ^ 7 := by
  obtain ⟨hslope, hslope'⟩ := slope_bounds
  unfold signal
  split
  · next hy =>
    split
    · next hx =>
      obtain ⟨hlow, hhigh⟩ := curve_growth hx.le hxy
      rw [abs_of_nonneg hlow]
      linarith
    · next hx =>
      have hmeet := abs_curve_sub_slope_mul_le (x := x) hy.le
      rw [abs_of_nonneg (sub_nonneg.2 (not_lt.1 hx))] at hmeet
      linarith
  · next hy =>
    have hgap : 0 ≤ y - x := sub_nonneg.2 hxy
    rw [if_neg (not_lt.2 (hxy.trans (not_lt.1 hy))), ← mul_sub,
      abs_of_nonneg (mul_nonneg (by linarith) hgap)]
    linarith [mul_le_mul_of_nonneg_right (by linarith : slope ≤ 13) hgap]

theorem abs_signal_light_sub_le (c : ℝ) : |signal (light c) - c| ≤ 3 / 10 ^ 7 := by
  obtain ⟨hgain, hgain'⟩ := gain_bounds
  obtain ⟨hoffset, hoffset'⟩ := offset_bounds
  obtain ⟨hslope, hslope'⟩ := slope_bounds
  obtain ⟨hknee, hknee'⟩ := knee_bounds
  obtain ⟨hlight, hlight'⟩ := kneeLight_bounds
  have hslope0 : 0 < slope := by linarith
  unfold light
  split
  · next hlinear =>
    have hback : slope * (c / slope) = c := mul_div_cancel₀ c hslope0.ne'
    unfold signal
    split
    · next hcurved =>
      have hgap : c / slope - kneeLight ≤ 6 / 10 ^ 9 := by
        rw [sub_le_iff_le_add, div_le_iff₀ hslope0]
        calc c ≤ 0.04045 + 1 / 10 ^ 15 := by linarith
          _ ≤ (6 / 10 ^ 9 + (0.0031308 - 1 / 10 ^ 15)) * (12.92 - 2 / 10 ^ 15) := by norm_num
          _ ≤ (6 / 10 ^ 9 + kneeLight) * slope := by gcongr
      have hmeet := abs_curve_sub_slope_mul_le (x := c / slope) hcurved.le
      rw [hback, abs_sub_comm kneeLight, abs_of_pos (sub_pos.2 hcurved)] at hmeet
      linarith
    · rw [hback, sub_self, abs_zero]
      norm_num
  · next hcurved =>
    have hcurved := not_le.1 hcurved
    have hgain0 : 0 < gain := by linarith
    have hbase : 0.0904739 ≤ (c + offset) / gain := by
      rw [le_div_iff₀ hgain0]
      linarith
    have hbase0 : 0 ≤ (c + offset) / gain := by linarith
    have hlow : 0.0031308001 ≤ ((c + offset) / gain) ^ (12 / 5 : ℝ) := by
      apply le_rpow_of_pow_le decode_exponent (by decide) hbase0 (by norm_num)
      calc (0.0031308001 : ℝ) ^ 5 ≤ 0.0904739 ^ 12 := by norm_num
        _ ≤ ((c + offset) / gain) ^ 12 := by gcongr
    rw [signal, if_pos (by linarith), curve, ← Real.rpow_mul hbase0]
    norm_num
    rw [mul_div_cancel₀ _ hgain0.ne', add_sub_cancel_right, sub_self, abs_zero]
    norm_num

theorem light_nonneg {c : ℝ} (hc : 0 ≤ c) : 0 ≤ light c := by
  have := gain_bounds.1
  have := offset_bounds.1
  have := slope_bounds.1
  unfold light
  split
  · exact div_nonneg hc (by linarith)
  · exact Real.rpow_nonneg (div_nonneg (by linarith) (by linarith)) _

theorem signal_nonneg {l : ℝ} (hl : 0 ≤ l) : 0 ≤ signal l := by
  have hslope := slope_bounds.1
  have hlight := kneeLight_bounds.1
  unfold signal
  split
  · next hcurved =>
    have hgrowth := (curve_growth le_rfl hcurved.le).1
    have hjump := (abs_le.1 abs_curve_kneeLight_sub_le).1
    nlinarith
  · exact mul_nonneg (by linarith) hl

noncomputable def odd (f : ℝ → ℝ) (x : ℝ) : ℝ := if x < 0 then -f (-x) else f x

theorem odd_of_nonneg (f : ℝ → ℝ) {x : ℝ} (hx : 0 ≤ x) : odd f x = f x := if_neg (not_lt.2 hx)

theorem odd_of_neg (f : ℝ → ℝ) {x : ℝ} (hx : x < 0) : odd f x = -f (-x) := if_pos hx

theorem odd_neg {f : ℝ → ℝ} (h : f 0 = 0) (x : ℝ) : odd f (-x) = -odd f x := by
  unfold odd
  obtain hx | rfl | hx := lt_trichotomy x 0
  · rw [if_neg (by linarith), if_pos hx, neg_neg]
  · simp [h]
  · rw [if_pos (by linarith), if_neg (by linarith), neg_neg]

theorem signal_zero : signal 0 = 0 := by
  have := kneeLight_bounds.1
  rw [signal, if_neg (by linarith), mul_zero]

theorem light_zero : light 0 = 0 := by
  have := knee_bounds.1
  rw [light, if_pos (by linarith), zero_div]

theorem abs_odd_signal_sub_le (x y : ℝ) :
    |odd signal y - odd signal x| ≤ 13 * |y - x| + 2 / 10 ^ 7 := by
  wlog hxy : x ≤ y generalizing x y
  · rw [abs_sub_comm, abs_sub_comm y]
    exact this y x (not_le.1 hxy).le
  rw [abs_of_nonneg (sub_nonneg.2 hxy)]
  rcases le_or_gt 0 x with hx | hx
  · rw [odd_of_nonneg _ hx, odd_of_nonneg _ (hx.trans hxy)]
    linarith [abs_signal_sub_le hxy]
  · rcases lt_or_ge y 0 with hy | hy
    · have h := abs_signal_sub_le (neg_le_neg hxy)
      rw [odd_of_neg _ hx, odd_of_neg _ hy, neg_sub_neg]
      linarith
    · have hleft := abs_signal_sub_le (neg_pos.2 hx).le
      have hright := abs_signal_sub_le hy
      rw [signal_zero, sub_zero] at hleft hright
      rw [odd_of_neg _ hx, odd_of_nonneg _ hy, sub_neg_eq_add]
      linarith [abs_add_le (signal y) (signal (-x))]

theorem abs_odd_signal_odd_light_sub_le (c : ℝ) :
    |odd signal (odd light c) - c| ≤ 3 / 10 ^ 7 := by
  wlog hc : 0 ≤ c generalizing c
  · have h := this (-c) (by linarith)
    rw [odd_neg light_zero, odd_neg signal_zero] at h
    rwa [← neg_sub', abs_neg] at h
  rw [odd_of_nonneg _ hc, odd_of_nonneg _ (light_nonneg hc)]
  exact abs_signal_light_sub_le c

theorem base_bounds {c : ℝ} (hknee : knee ≤ c) (hc : c ≤ 4000) :
    0.09 ≤ (c + offset) / gain ∧ (c + offset) / gain ≤ 3999 := by
  have := knee_bounds.1
  obtain ⟨hgain, hgain'⟩ := gain_bounds
  obtain ⟨hoffset, hoffset'⟩ := offset_bounds
  have hgain0 : 0 < gain := by linarith
  rw [le_div_iff₀ hgain0, div_le_iff₀ hgain0]
  constructor <;> linarith

theorem rpow_le_of_le {x : ℝ} (hx : 0 ≤ x) (hx' : x ≤ 4000) : x ^ (12 / 5 : ℝ) ≤ 450000000 := by
  apply rpow_le_of_pow_le decode_exponent (by decide) hx (by norm_num)
  calc x ^ 12 ≤ 4000 ^ 12 := by gcongr
    _ ≤ 450000000 ^ 5 := by norm_num

theorem light_le {c : ℝ} (hc : c ≤ 4000) : light c ≤ 450000000 := by
  have := slope_bounds.1
  unfold light
  split
  · next h =>
    rw [div_le_iff₀ (by linarith)]
    linarith [knee_bounds.2]
  · next h =>
    obtain ⟨hlow, hhigh⟩ := base_bounds (not_le.1 h).le hc
    exact rpow_le_of_le (by linarith) (by linarith)

theorem abs_odd_light_le {c : ℝ} (hc : |c| ≤ 4000) : |odd light c| ≤ 450000000 := by
  obtain ⟨hlow, hhigh⟩ := abs_le.1 hc
  rcases lt_or_ge c 0 with h | h
  · rw [odd_of_neg _ h, abs_neg, abs_of_nonneg (light_nonneg (by linarith))]
    exact light_le (by linarith)
  · rw [odd_of_nonneg _ h, abs_of_nonneg (light_nonneg h)]
    exact light_le hhigh

/-- The curved part of the light of a channel grows by some hundred thousand times its argument. -/
theorem abs_rpow_sub_le {x y : ℝ} (hx : 0 < x) (hy : 0 < y) (hx' : x ≤ 4000) (hy' : y ≤ 4000) :
    |x ^ (12 / 5 : ℝ) - y ^ (12 / 5 : ℝ)| ≤ 288000 * |x - y| := by
  wlog hxy : x ≤ y generalizing x y
  · rw [abs_sub_comm, abs_sub_comm x]
    exact this hy hx hy' hx' (not_le.1 hxy).le
  have hpower : y ^ (12 / 5 : ℝ) ≤ 120000 * y := by
    apply rpow_le_of_pow_le decode_exponent (by decide) hy.le (by linarith)
    calc y ^ 12 = y ^ 5 * y ^ 7 := by ring
      _ ≤ y ^ 5 * 4000 ^ 7 := by gcongr
      _ ≤ y ^ 5 * 120000 ^ 5 := by gcongr; norm_num
      _ = (120000 * y) ^ 5 := by ring
  have hbernoulli : 1 + 12 / 5 * (x / y - 1) ≤ (1 + (x / y - 1)) ^ (12 / 5 : ℝ) :=
    one_add_mul_self_le_rpow_one_add (by linarith [div_nonneg hx.le hy.le]) (by norm_num)
  have hratio : 0 ≤ 1 - x / y := by
    rw [sub_nonneg, div_le_one hy]
    exact hxy
  have hsplit : x ^ (12 / 5 : ℝ) = y ^ (12 / 5 : ℝ) * (1 + (x / y - 1)) ^ (12 / 5 : ℝ) := by
    rw [← Real.mul_rpow hy.le (by linarith [div_nonneg hx.le hy.le])]
    congr 1
    field_simp
    ring
  have hpos : 0 ≤ y ^ (12 / 5 : ℝ) := Real.rpow_nonneg hy.le _
  have hmono : x ^ (12 / 5 : ℝ) ≤ y ^ (12 / 5 : ℝ) := by gcongr
  rw [abs_sub_comm, abs_sub_comm x, abs_of_nonneg (sub_nonneg.2 hmono),
    abs_of_nonneg (sub_nonneg.2 hxy)]
  calc y ^ (12 / 5 : ℝ) - x ^ (12 / 5 : ℝ)
      ≤ y ^ (12 / 5 : ℝ) - y ^ (12 / 5 : ℝ) * (1 + 12 / 5 * (x / y - 1)) := by
        rw [hsplit]
        gcongr
    _ = 12 / 5 * (y ^ (12 / 5 : ℝ) * (1 - x / y)) := by ring
    _ ≤ 12 / 5 * (120000 * y * (1 - x / y)) := by gcongr
    _ = 288000 * (y - x) := by
        field_simp
        ring

end Transfer

theorem Double.real_abs (u : Double) : u.abs.real = |u.real| := by
  simp [real, value_abs]

namespace Number

variable {x y : Double}

theorem lt_double (hx : x.isFinite) (hy : y.isFinite) :
    (double x).lt (.double y) = true ↔ x.real < y.real :=
  (lt_iff (x := double x) (y := double y) hx hy).trans Rat.cast_lt.symm

theorem le_double (hx : x.isFinite) (hy : y.isFinite) :
    (double x).le (.double y) = true ↔ x.real ≤ y.real :=
  (le_iff (x := double x) (y := double y) hx hy).trans Rat.cast_le.symm

theorem div_double (x : Double) (h : y.real ≠ 0) :
    (double x).div (.double y) = .ok (.double (x / y)) := by
  have hzero : (double y).isZero = false := by
    rw [Number.isZero, Bool.and_eq_false_iff]
    right
    simpa [Double.real] using h
  simp [Number.div, hzero]
  rfl

end Number

namespace Transfer

theorem symmetric_near {transfer : Computed Number → Computed Number} {f : ℝ → ℝ} {u : Double}
    {error : ℝ} (hzero : f 0 = 0) (hf : 0 ≤ f |u.real|) (hu : u.isFinite)
    (h : ∃ y, transfer (.ok (.double u.abs)) = .ok (.double y) ∧ y.Near (f |u.real|) error) :
    ∃ z, symmetric transfer (.double u) = .ok (.double z) ∧ z.Near (odd f u.real) error := by
  obtain ⟨y, htransfer, hy⟩ := h
  have herror : 0 ≤ error := (abs_nonneg _).trans hy.error
  by_cases hu0 : u.value = 0
  · have hreal : u.real = 0 := by simp [Double.real, hu0]
    have hisZero : (Number.double u).isZero = true := by simp [Number.isZero, hu, hu0]
    refine ⟨.zero false, if_pos hisZero, rfl, ?_⟩
    rw [hreal, odd_of_nonneg _ le_rfl, hzero, Double.real, Double.value_zero]
    simpa using herror
  · have hisZero : (Number.double u).isZero = false := by simp [Number.isZero, hu0]
    refine ⟨y.withSign u.isNegative, ?_, ?_, ?_⟩
    · have habs : (Number.double u).abs = .double u.abs := rfl
      rw [symmetric, hisZero, habs, htransfer]
      rfl
    · rw [Double.isFinite_withSign]
      exact hy.finite
    · have hmagnitude : abs (|y.real| - f |u.real|) ≤ error := by
        have h := abs_abs_sub_abs_le y.real (f |u.real|)
        rw [abs_of_nonneg hf] at h
        exact h.trans hy.error
      have hsign := u.sign_value
      have hwith := y.value_withSign u.isNegative
      cases hnegative : u.isNegative with
      | true =>
        rw [hnegative] at hsign hwith
        have hneg : u.real < 0 := by
          have hvalue : u.value < 0 := lt_of_le_of_ne hsign hu0
          unfold Double.real
          exact_mod_cast hvalue
        have hreal : (y.withSign true).real = -|y.real| := by
          simp [Double.real, hwith]
        rw [hreal, odd_of_neg _ hneg, neg_sub_neg, abs_sub_comm, ← abs_of_neg hneg]
        exact hmagnitude
      | false =>
        rw [hnegative] at hsign hwith
        have hnonneg : 0 ≤ u.real := by
          have hvalue : 0 ≤ u.value := hsign
          unfold Double.real
          exact_mod_cast hvalue
        have hreal : (y.withSign false).real = |y.real| := by
          simp [Double.real, hwith]
        rw [hreal, odd_of_nonneg _ hnonneg]
        rwa [abs_of_nonneg hnonneg] at hmagnitude

/-- Bounds of a logarithm, for the light and the channels of colors. -/
theorem abs_log_le {x : ℝ} (hlow : 1 / 1000 ≤ x) (hhigh : x ≤ 10 ^ 9) : |Real.log x| ≤ 40 := by
  have hpos : 0 < x := by linarith
  have htwo : (2 : ℝ) ^ 40 ≤ Real.exp 40 := by
    have hone : (2 : ℝ) ≤ Real.exp 1 := by linarith [Real.add_one_le_exp 1]
    calc (2 : ℝ) ^ 40 ≤ Real.exp 1 ^ 40 := by gcongr
      _ = Real.exp 40 := by rw [← Real.exp_nat_mul]; norm_num
  rw [abs_le]
  constructor
  · rw [neg_le, ← Real.log_inv, Real.log_le_iff_le_exp (by positivity)]
    have hinverse : x⁻¹ ≤ 1000 := by
      rw [inv_le_comm₀ hpos (by norm_num)]
      linarith
    linarith
  · rw [Real.log_le_iff_le_exp hpos]
    linarith

/-- A power to an exponent of a transfer function, of light or a channel. -/
theorem power_near_of_bounds {x e : Double} {r bound : ℝ} (hx : x.isFinite)
    (hlow : 1 / 1000 ≤ x.real) (hhigh : x.real ≤ 10 ^ 9) (he : |e.real - r| ≤ 1 / 10 ^ 16)
    (hr : |r| ≤ 3) (hbound : x.real ^ r ≤ bound) (hlimit : bound ≤ 10 ^ 15) :
    ∃ y, Double.power x e = .ok y ∧ y.Near (x.real ^ r) (bound / 10 ^ 14 + 1 / 10 ^ 15) := by
  have hlog := abs_log_le hlow hhigh
  have hexponent : |e.real| ≤ 4 := by
    have := abs_sub_abs_le_abs_sub e.real r
    norm_num at he
    linarith
  have herror : |(e.real - r) * Real.log x.real| ≤ 4 / 10 ^ 15 := by
    rw [abs_mul]
    calc |e.real - r| * |Real.log x.real| ≤ 1 / 10 ^ 16 * 40 := by gcongr
      _ ≤ 4 / 10 ^ 15 := by norm_num
  obtain ⟨y, hy, hnear⟩ := Double.power_near hx (by linarith) hlog hexponent herror (by norm_num)
    (hbound.trans hlimit)
  refine ⟨y, hy, hnear.mono ?_⟩
  have hpos : 0 ≤ x.real ^ r := Real.rpow_nonneg (by linarith) r
  norm_num
  linarith

def decodeMagnitude (c : Computed Number) : Computed Number := do
  if ← Computed.le c 0.04045 then c / 12.92 else ((c + 0.055) / 1.055).power 2.4

def encodeMagnitude (c : Computed Number) : Computed Number := do
  if ← Computed.lt 0.0031308 c then 1.055 * c.power (1 / 2.4) - 0.055 else 12.92 * c

theorem decodeSrgb_eq : decodeSrgb = symmetric decodeMagnitude := rfl

theorem encodeSrgb_eq : encodeSrgb = symmetric encodeMagnitude := rfl

theorem curve_near {p : Double} {r : ℝ} (hp : p.Near r (1 / 10 ^ 10)) (hr : |r| ≤ 4400) :
    (1.055 * p - 0.055).Near (gain * r - offset) (1 / 10 ^ 9) := by
  obtain ⟨hgain, hgain'⟩ := gain_bounds
  obtain ⟨hoffset, hoffset'⟩ := offset_bounds
  have hpos : 0 < gain := by linarith
  have hmagnitude : |gain * p.real| ≤ 4900 := by
    rw [abs_mul, abs_of_pos hpos]
    calc gain * |p.real| ≤ 1.1 * 4401 := by
          gcongr
          · linarith
          · linarith [hp.abs_real_le]
      _ ≤ 4900 := by norm_num
  have hproduct : ((1.055 : Double) * p).Near (gain * p.real) ((4900 + 1) / 2 ^ 53) :=
    Double.mul_near gain_near.finite hp.finite hmagnitude (by norm_num)
  have hdifference : ((1.055 : Double) * p - 0.055).Near (((1.055 : Double) * p).real - offset)
      ((5000 + 1) / 2 ^ 53) := by
    refine Double.sub_near hproduct.finite offset_near.finite ?_ (by norm_num)
    show |((1.055 : Double) * p).real - offset| ≤ 5000
    apply (abs_sub _ _).trans
    rw [abs_of_pos (by linarith : 0 < offset)]
    linarith [hproduct.abs_real_le]
  have hscaled : |gain * p.real - gain * r| ≤ 2 * (1 / 10 ^ 10) := by
    rw [← mul_sub, abs_mul, abs_of_pos hpos]
    exact mul_le_mul (by linarith) hp.error (abs_nonneg _) (by norm_num)
  have hmoved := (hproduct.trans hscaled).error
  rw [← sub_sub_sub_cancel_right _ _ offset] at hmoved
  exact (hdifference.trans hmoved).mono (by norm_num)

theorem decodeMagnitude_double (m : Double) : decodeMagnitude (.ok (.double m)) =
    if (Number.double m).le (.double 0.04045) then (Number.double m).div (.double 12.92)
    else Computed.power ((Number.double (m + 0.055)).div (.double 1.055)) 2.4 := rfl

theorem encodeMagnitude_double (m : Double) : encodeMagnitude (.ok (.double m)) =
    if (Number.double 0.0031308).lt (.double m) then do
      return .double (1.055 * (← Double.power m (1 / 2.4)) - 0.055)
    else .ok (.double (12.92 * m)) := by
  show (if (Number.double 0.0031308).lt (.double m) then
    (1.055 : Computed Number) * Computed.power (.ok (.double m)) (1 / 2.4) - 0.055
    else .ok (.double (12.92 * m))) = _
  show (if (Number.double 0.0031308).lt (.double m) then
    (1.055 : Computed Number) * (Double.power m (1 / 2.4) >>= fun y => .ok (.double y)) - 0.055
    else .ok (.double (12.92 * m))) = _
  cases Double.power m (1 / 2.4) <;> rfl

section

variable {m : Double} (hm : m.isFinite)
include hm

theorem base_near (hlow : knee ≤ m.real) (hhigh : m.real ≤ 4000) :
    ((m + 0.055) / 1.055).Near ((m.real + offset) / gain) (1 / 10 ^ 12) := by
  have := knee_bounds.1
  obtain ⟨hgain, hgain'⟩ := gain_bounds
  obtain ⟨hoffset, hoffset'⟩ := offset_bounds
  have hsum : (m + 0.055).Near (m.real + offset) ((4001 + 1) / 2 ^ 53) := by
    apply Double.add_near hm offset_near.finite
    · show |m.real + offset| ≤ 4001
      rw [abs_of_nonneg (by linarith)]
      linarith
    · norm_num
  obtain ⟨hsum0, hsum1⟩ := abs_le.1 hsum.error
  have hquotient : ((m + 0.055) / 1.055).Near ((m + 0.055).real / gain) ((4001 + 1) / 2 ^ 53) := by
    apply Double.div_near hsum.finite gain_near.finite
    · show gain ≠ 0
      linarith
    · show |(m + 0.055).real / gain| ≤ 4001
      rw [abs_of_nonneg (div_nonneg (by linarith) (by linarith)), div_le_iff₀ (by linarith)]
      linarith
    · norm_num
  refine ⟨hquotient.finite, ?_⟩
  have hexact : |(m + 0.055).real / gain - (m.real + offset) / gain| ≤ (4001 + 1) / 2 ^ 53 := by
    rw [← sub_div, abs_div, abs_of_pos (by linarith : 0 < gain)]
    apply (div_le_self (abs_nonneg _) (by linarith)).trans hsum.error
  calc _ ≤ (4001 + 1) / 2 ^ 53 + (4001 + 1) / 2 ^ 53 :=
        (abs_sub_le _ _ _).trans (add_le_add hquotient.error hexact)
    _ ≤ 1 / 10 ^ 12 := by norm_num

theorem decodeMagnitude_near (hlow : 0 ≤ m.real) (hhigh : m.real ≤ 4000) :
    ∃ y, decodeMagnitude (.ok (.double m)) = .ok (.double y) ∧
      y.Near (light m.real) (5 / 10 ^ 6) := by
  have hcompare := Number.le_double hm knee_near.finite
  have hslope : 0 < slope := by linarith [slope_bounds.1]
  have hgain : 0 < gain := by linarith [gain_bounds.1]
  rw [decodeMagnitude_double]
  unfold light
  by_cases hlinear : m.real ≤ knee
  · have hquotient : (m / 12.92).Near (m.real / slope) ((1 + 1) / 2 ^ 53) := by
      apply Double.div_near hm slope_near.finite
      · exact hslope.ne'
      · show |m.real / slope| ≤ 1
        rw [abs_of_nonneg (div_nonneg hlow hslope.le), div_le_one hslope]
        linarith [knee_bounds.2, slope_bounds.1]
      · norm_num
    rw [if_pos (hcompare.2 hlinear), if_pos hlinear, Number.div_double _ hslope.ne']
    exact ⟨_, rfl, hquotient.mono (by norm_num)⟩
  · have hknee := not_le.1 hlinear
    rw [if_neg (mt hcompare.1 hlinear), if_neg hlinear, Number.div_double _ hgain.ne']
    have hbase := base_near hm hknee.le hhigh
    obtain ⟨hbase0, hbase1⟩ := base_bounds hknee.le hhigh
    obtain ⟨herror0, herror1⟩ := abs_le.1 hbase.error
    obtain ⟨y, hy, hnear⟩ := power_near_of_bounds hbase.finite (by linarith) (by linarith)
      exponents_close.1 (by norm_num) (rpow_le_of_le (by linarith) (by linarith)) (by norm_num)
    refine ⟨y, ?_, hnear.finite, ?_⟩
    · show (do return Number.double (← Double.power ((m + 0.055) / 1.055) 2.4)) = _
      rw [hy]
      rfl
    · have hgrowth := abs_rpow_sub_le (x := ((m + 0.055) / 1.055).real)
        (y := (m.real + offset) / gain) (by linarith) (by linarith) (by linarith) (by linarith)
      calc _ ≤ (450000000 / 10 ^ 14 + 1 / 10 ^ 15) + 288000 * (1 / 10 ^ 12) :=
            (abs_sub_le _ _ _).trans (add_le_add hnear.error
              (hgrowth.trans (mul_le_mul_of_nonneg_left hbase.error (by norm_num))))
        _ ≤ 5 / 10 ^ 6 := by norm_num

theorem encodeMagnitude_near (hlow : 0 ≤ m.real) (hhigh : m.real ≤ 500000000) :
    ∃ y, encodeMagnitude (.ok (.double m)) = .ok (.double y) ∧
      y.Near (signal m.real) (1 / 10 ^ 9) := by
  have hcompare := Number.lt_double kneeLight_near.finite hm
  obtain ⟨hslope, hslope'⟩ := slope_bounds
  obtain ⟨hlight, hlight'⟩ := kneeLight_bounds
  rw [encodeMagnitude_double]
  unfold signal
  by_cases hcurved : kneeLight < m.real
  · rw [if_pos (hcompare.2 hcurved), if_pos hcurved]
    have hbound : m.real ^ (5 / 12 : ℝ) ≤ 4400 := by
      apply rpow_le_of_pow_le encode_exponent (by decide) hlow (by norm_num)
      calc m.real ^ 5 ≤ 500000000 ^ 5 := by gcongr
        _ ≤ 4400 ^ 12 := by norm_num
    obtain ⟨p, hp, hnear⟩ := power_near_of_bounds hm (by linarith) (by linarith) exponents_close.2
      (by norm_num) hbound (by norm_num)
    have hchannel : (1.055 * p - 0.055).Near (curve m.real) (1 / 10 ^ 9) :=
      curve_near (hnear.mono (by norm_num)) (by rwa [abs_of_nonneg (Real.rpow_nonneg hlow _)])
    refine ⟨1.055 * p - 0.055, ?_, hchannel⟩
    rw [hp]
    rfl
  · rw [if_neg (mt hcompare.1 hcurved), if_neg hcurved]
    have hproduct : ((12.92 : Double) * m).Near (slope * m.real) ((1 + 1) / 2 ^ 53) := by
      apply Double.mul_near slope_near.finite hm
      · show |slope * m.real| ≤ 1
        rw [abs_of_nonneg (by nlinarith)]
        nlinarith
      · norm_num
    exact ⟨_, rfl, hproduct.mono (by norm_num)⟩

end

section

variable {u : Double} (hu : u.isFinite)
include hu

/-- The light of a channel, as it is computed, is off by little. -/
theorem decodeSrgb_near (h : |u.real| ≤ 4000) : ∃ y, decodeSrgb (.double u) = .ok (.double y) ∧
    y.Near (odd light u.real) (5 / 10 ^ 6) := by
  rw [decodeSrgb_eq]
  apply symmetric_near light_zero (light_nonneg (abs_nonneg _)) hu
  rw [← u.real_abs] at h ⊢
  exact decodeMagnitude_near (by rwa [u.isFinite_abs]) (by rw [u.real_abs]; positivity) h

/-- The channel of a light, as it is computed, is off by less. -/
theorem encodeSrgb_near (h : |u.real| ≤ 500000000) :
    ∃ y, encodeSrgb (.double u) = .ok (.double y) ∧
      y.Near (odd signal u.real) (1 / 10 ^ 9) := by
  rw [encodeSrgb_eq]
  apply symmetric_near signal_zero (signal_nonneg (abs_nonneg _)) hu
  rw [← u.real_abs] at h ⊢
  exact encodeMagnitude_near (by rwa [u.isFinite_abs]) (by rw [u.real_abs]; positivity) h

end

end Transfer

end StyleValue
