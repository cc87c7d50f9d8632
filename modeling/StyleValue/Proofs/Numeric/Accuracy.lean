import Mathlib.Data.Real.Basic
import StyleValue.Numeric.Arithmetic
import StyleValue.Proofs.Numeric.Range

/-!
# The accuracy of rounding

The double nearest to a magnitude is off by half a unit of its last digit at most. So an operation
on doubles is the exact one up to an error that is small against the result, or against one if the
result is small itself.
-/

set_option autoImplicit false

namespace StyleValue

theorem abs_divideHalfEven_sub_le (n d : Nat) (hd : 0 < d) :
    |(divideHalfEven n d : ℚ) - (n : ℚ) / d| ≤ 1 / 2 := by
  have hd' : (0 : ℚ) < d := by exact_mod_cast hd
  have hquotient : (n : ℚ) / d = (n / d : Nat) + ((n % d : Nat) : ℚ) / d := by
    have hn : (n : ℚ) = d * (n / d : Nat) + (n % d : Nat) := by
      exact_mod_cast (Nat.div_add_mod n d).symm
    rw [div_eq_iff hd'.ne', add_mul, div_mul_cancel₀ _ hd'.ne', mul_comm _ (d : ℚ)]
    exact hn
  have hnonneg : (0 : ℚ) ≤ ((n % d : Nat) : ℚ) / d := by positivity
  have hlt : ((n % d : Nat) : ℚ) / d < 1 := by
    rw [div_lt_one hd']
    exact_mod_cast Nat.mod_lt n hd
  rw [hquotient, abs_le]
  unfold divideHalfEven
  dsimp only
  split
  · next hlow =>
    have hhalf : ((n % d : Nat) : ℚ) / d ≤ 1 / 2 := by
      have : 2 * (n % d) ≤ d := by omega
      rw [div_le_iff₀ hd']
      have : (2 : ℚ) * (n % d : Nat) ≤ d := by exact_mod_cast this
      linarith
    constructor <;> linarith
  · next hhigh =>
    have hhalf : 1 / 2 ≤ ((n % d : Nat) : ℚ) / d := by
      have : d ≤ 2 * (n % d) := by omega
      rw [le_div_iff₀ hd']
      have : (d : ℚ) ≤ 2 * (n % d : Nat) := by exact_mod_cast this
      linarith
    push_cast
    constructor <;> linarith

namespace Double

/-- The unit that a magnitude is rounded to is small against it, or against one. -/
theorem half_unit_le (q : ℚ) (hq : 0 < q) :
    2 ^ roundingExponent q / 2 ≤ (q + 1) / 2 ^ (53 : Nat) := by
  have hunit : (2 : ℚ) ^ roundingExponent q ≤ (q + 1) * 2 ^ (-52 : Int) := by
    rcases le_total (Int.log 2 q - 52) (-1074) with h | h
    · rw [roundingExponent, max_eq_right h]
      calc (2 : ℚ) ^ (-1074 : Int) ≤ 1 * 2 ^ (-52 : Int) := by
            rw [one_mul]
            exact zpow_le_zpow_right₀ one_le_two (by decide)
        _ ≤ (q + 1) * 2 ^ (-52 : Int) := by gcongr; linarith
    · rw [roundingExponent, max_eq_left h, sub_eq_add_neg, zpow_add₀ two_ne_zero]
      have hlog : (2 : ℚ) ^ Int.log 2 q ≤ q := by exact_mod_cast Int.zpow_log_le_self one_lt_two hq
      gcongr
      linarith
  norm_num at hunit ⊢
  linarith

theorem value_ofParts {mantissa : Nat} {exponent : Int} (h : Canonical mantissa exponent)
    (negative : Bool) : (ofParts negative mantissa exponent).value =
      if negative then -(mantissa * 2 ^ exponent : ℚ) else mantissa * 2 ^ exponent := by
  rw [ofParts, dif_pos h]
  cases negative <;> simp [value]

/-- The double nearest to a positive magnitude, by its mantissa before a carry. -/
theorem value_nearest (negative : Bool) (q : ℚ) (hq : q ≠ 0) (h : |q| < 2 ^ (1023 : Nat)) :
    ∃ m : Nat, (nearest negative q).isFinite ∧
      (nearest negative q).value = (if negative then -(m * 2 ^ roundingExponent |q| : ℚ)
        else m * 2 ^ roundingExponent |q|) ∧
      abs ((m : ℚ) - |q| / 2 ^ roundingExponent |q|) ≤ 1 / 2 := by
  have hn : 0 < q.num.natAbs := Int.natAbs_pos.2 (Rat.num_ne_zero.2 hq)
  have habs := abs_eq_div q
  have hexponent := max_leadingExponent hn
  have hle := roundingExponent_le |q| (abs_pos.2 hq) h
  have hge : -1074 ≤ roundingExponent |q| := le_max_right _ _
  unfold nearest
  dsimp only
  rw [if_neg hn.ne', hexponent]
  generalize he : roundingExponent |q| = e at hle hge
  generalize hm : divideHalfEven (q.num.natAbs * twoPow (-e).toNat) (q.den * twoPow e.toNat) = m
  obtain ⟨hmax, hmin, -⟩ :=
    mantissa_bounds q.num.natAbs q.den hn q.den_pos e (by rw [← he, habs]) m hm.symm
  have hhalf := abs_divideHalfEven_sub_le (q.num.natAbs * twoPow (-e).toNat)
    (q.den * twoPow e.toNat) (Nat.mul_pos q.den_pos (twoPow_pos _))
  rw [hm, scaled_eq, ← habs] at hhalf
  refine ⟨m, ?_⟩
  by_cases hcarry : m = twoPow 53
  · have hcanonical : Canonical (twoPow 52) (e + 1) := ⟨by decide, by omega, by omega, .inl le_rfl⟩
    have hvalue : ((twoPow 52 : Nat) : ℚ) * 2 ^ (e + 1) = m * 2 ^ e := by
      rw [hcarry, cast_twoPow, cast_twoPow, zpow_add_one₀ two_ne_zero]
      ring
    rw [if_pos hcarry, value_ofParts hcanonical, hvalue]
    exact ⟨isFinite_ofParts hcanonical negative, rfl, hhalf⟩
  · have hcanonical : Canonical m e := by
      refine ⟨by omega, hge, by omega, ?_⟩
      by_cases hleast : e = -1074
      · exact .inr hleast
      · exact .inl (hmin hleast)
    rw [if_neg hcarry, value_ofParts hcanonical]
    exact ⟨isFinite_ofParts hcanonical negative, rfl, hhalf⟩

/-- The double nearest to a magnitude is finite, and off by half a unit at most. -/
theorem nearest_accurate {negative : Bool} {q : ℚ} (h : |q| < 2 ^ (1023 : Nat))
    (hsign : if negative then q ≤ 0 else 0 ≤ q) : (nearest negative q).isFinite ∧
      |(nearest negative q).value - q| ≤ (|q| + 1) / 2 ^ (53 : Nat) := by
  by_cases hq : q = 0
  · rw [hq, nearest_zero, value_zero]
    exact ⟨rfl, by norm_num⟩
  obtain ⟨m, hfinite, hvalue, hhalf⟩ := value_nearest negative q hq h
  have hunit : (0 : ℚ) < 2 ^ roundingExponent |q| := by positivity
  have herror : abs ((m : ℚ) * 2 ^ roundingExponent |q| - |q|) ≤ 2 ^ roundingExponent |q| / 2 := by
    have hfactor : (m : ℚ) * 2 ^ roundingExponent |q| - |q| =
        (m - |q| / 2 ^ roundingExponent |q|) * 2 ^ roundingExponent |q| := by
      rw [sub_mul, div_mul_cancel₀ _ hunit.ne']
    rw [hfactor, abs_mul, abs_of_pos hunit]
    linarith [mul_le_mul_of_nonneg_right hhalf hunit.le]
  refine ⟨hfinite, le_trans (le_of_eq_of_le ?_ herror) (half_unit_le |q| (abs_pos.2 hq))⟩
  rw [hvalue]
  cases negative with
  | true =>
    have hnonpos : q ≤ 0 := hsign
    rw [if_pos rfl, abs_of_nonpos hnonpos, ← abs_neg]
    congr 1
    ring
  | false =>
    have hnonneg : 0 ≤ q := hsign
    rw [if_neg (by decide), abs_of_nonneg hnonneg]

def real (x : Double) : ℝ := x.value

theorem value_neg (x : Double) : (-x).value = -x.value := by
  show (x.withSign !x.isNegative).value = -x.value
  cases x with
  | notANumber | infinite => simp [withSign, value]
  | finite s m e h => cases s <;> simp [withSign, isNegative, value]

theorem real_neg (x : Double) : (-x).real = -x.real := by simp [real, value_neg]

theorem isFinite_withSign (negative : Bool) (x : Double) :
    (x.withSign negative).isFinite = x.isFinite := by
  cases x <;> rfl

theorem isFinite_neg (x : Double) : (-x).isFinite = x.isFinite := isFinite_withSign _ x

theorem sign_value {x : Double} : if x.isNegative then x.value ≤ 0 else 0 ≤ x.value := by
  cases x with
  | notANumber | infinite => simp [value]
  | finite s m e h =>
    have hpos : (0 : ℚ) ≤ m * 2 ^ e := by positivity
    cases s <;> simp [value, isNegative, hpos]

theorem value_withSign (negative : Bool) (x : Double) :
    (x.withSign negative).value = if negative then -|x.value| else |x.value| := by
  cases x with
  | notANumber | infinite => simp [withSign, value]
  | finite s m e h =>
    have hpos : |(m * 2 ^ e : ℚ)| = m * 2 ^ e := abs_of_nonneg (by positivity)
    cases s <;> cases negative <;> simp [withSign, value, hpos]

theorem value_abs (x : Double) : x.abs.value = |x.value| := value_withSign false x

theorem isFinite_abs (x : Double) : x.abs.isFinite = x.isFinite := isFinite_withSign false x

structure Near (x : Double) (r error : ℝ) : Prop where
  finite : x.isFinite
  error : |x.real - r| ≤ error

theorem near_self {x : Double} (h : x.isFinite) : x.Near x.real 0 := ⟨h, by simp⟩

theorem Near.mono {x : Double} {r e e' : ℝ} (h : x.Near r e) (he : e ≤ e') : x.Near r e' :=
  ⟨h.finite, h.error.trans he⟩

theorem Near.abs_real_le {x : Double} {r e : ℝ} (h : x.Near r e) : |x.real| ≤ |r| + e := by
  have := abs_sub_abs_le_abs_sub x.real r
  linarith [h.error]

theorem Near.bounds {x : Double} {r e : ℝ} (h : x.Near r e) : r - e ≤ x.real ∧ x.real ≤ r + e := by
  obtain ⟨hlow, hhigh⟩ := abs_le.1 h.error
  constructor <;> linarith

theorem lt_limit_of_le {q : ℚ} {bound : ℝ} (h : |(q : ℝ)| ≤ bound) (hbound : bound ≤ 10 ^ 20) :
    |q| < 2 ^ (1023 : Nat) := by
  have hsmall : |q| ≤ 10 ^ 20 := by exact_mod_cast h.trans hbound
  calc |q| ≤ 10 ^ 20 := hsmall
    _ < 2 ^ (67 : Nat) := by norm_num
    _ ≤ 2 ^ (1023 : Nat) := pow_le_pow_right₀ one_le_two (by decide)

theorem nearest_near {negative : Bool} {q : ℚ} {bound : ℝ} (h : |(q : ℝ)| ≤ bound)
    (hbound : bound ≤ 10 ^ 20) (hsign : if negative then q ≤ 0 else 0 ≤ q) :
    (nearest negative q).Near q ((bound + 1) / 2 ^ 53) := by
  obtain ⟨hfinite, herror⟩ := nearest_accurate (lt_limit_of_le h hbound) hsign
  refine ⟨hfinite, ?_⟩
  have herror' : |(nearest negative q).real - q| ≤ (|(q : ℝ)| + 1) / 2 ^ 53 := by
    unfold real
    exact_mod_cast herror
  exact herror'.trans (by gcongr)

theorem ofRat_near {q : ℚ} {bound : ℝ} (h : |(q : ℝ)| ≤ bound) (hbound : bound ≤ 10 ^ 20) :
    (ofRat q).Near q ((bound + 1) / 2 ^ 53) := by
  apply nearest_near h hbound
  by_cases hq : q < 0
  · simpa [hq] using hq.le
  · simpa [hq] using not_lt.1 hq

/-- A literal with decimals. -/
theorem literal_near (mantissa exponent : Nat) {r bound : ℝ}
    (hr : (mantissa : ℝ) / 10 ^ exponent = r) (h : r ≤ bound) (hbound : bound ≤ 10 ^ 20) :
    (OfScientific.ofScientific mantissa true exponent : Double).Near r ((bound + 1) / 2 ^ 53) := by
  have hq : ((Rat.ofScientific mantissa true exponent : ℚ) : ℝ) = r := by
    rw [← hr, Rat.ofScientific_true_def, Rat.mkRat_eq_div]
    push_cast
    rfl
  rw [← hq] at h ⊢
  refine ofRat_near ?_ hbound
  rwa [abs_of_nonneg]
  rw [hq, ← hr]
  positivity

section

variable {x y : Double} {bound : ℝ} (hx : x.isFinite) (hy : y.isFinite)
include hx hy

theorem add_near (h : |x.real + y.real| ≤ bound) (hbound : bound ≤ 10 ^ 20) :
    (x + y).Near (x.real + y.real) ((bound + 1) / 2 ^ 53) := by
  cases x with
  | notANumber | infinite => cases hx
  | finite s m e hm =>
    cases y with
    | notANumber | infinite => cases hy
    | finite t n f hn =>
      show (Double.add _ _).Near _ _
      unfold Double.add
      dsimp only
      have hpos : 0 ≤ bound := (abs_nonneg _).trans h
      rw [real, real, ← Rat.cast_add] at h ⊢
      split
      · next hsum =>
        refine ⟨rfl, ?_⟩
        rw [hsum, real, value_zero]
        norm_num
        linarith
      · exact ofRat_near h hbound

theorem sub_near (h : |x.real - y.real| ≤ bound) (hbound : bound ≤ 10 ^ 20) :
    (x - y).Near (x.real - y.real) ((bound + 1) / 2 ^ 53) := by
  show (x + -y).Near _ _
  rw [sub_eq_add_neg, ← real_neg] at h ⊢
  exact add_near hx (isFinite_neg y ▸ hy) h hbound

theorem mul_near (h : |x.real * y.real| ≤ bound) (hbound : bound ≤ 10 ^ 20) :
    (x * y).Near (x.real * y.real) ((bound + 1) / 2 ^ 53) := by
  have hxsign := x.sign_value
  have hysign := y.sign_value
  rw [real, real, ← Rat.cast_mul] at h ⊢
  cases x with
  | notANumber | infinite => cases hx
  | finite s m e hm =>
    cases y with
    | notANumber | infinite => cases hy
    | finite t n f hn =>
      apply nearest_near h hbound
      cases s <;> cases t
      · exact mul_nonneg hxsign hysign
      · exact mul_nonpos_of_nonneg_of_nonpos hxsign hysign
      · exact mul_nonpos_of_nonpos_of_nonneg hxsign hysign
      · exact mul_nonneg_of_nonpos_of_nonpos hxsign hysign

theorem div_near (hzero : y.real ≠ 0) (h : |x.real / y.real| ≤ bound) (hbound : bound ≤ 10 ^ 20) :
    (x / y).Near (x.real / y.real) ((bound + 1) / 2 ^ 53) := by
  have hxsign := x.sign_value
  have hysign := y.sign_value
  have hzero' : y.value ≠ 0 := by
    intro hvalue
    simp [real, hvalue] at hzero
  rw [real, real, ← Rat.cast_div] at h ⊢
  cases x with
  | notANumber | infinite => cases hx
  | finite s m e hm =>
    cases y with
    | notANumber | infinite => cases hy
    | finite t n f hn =>
      show (Double.div _ _).Near _ _
      unfold Double.div
      dsimp only
      rw [if_neg hzero']
      apply nearest_near h hbound
      cases s <;> cases t
      · exact div_nonneg hxsign hysign
      · exact div_nonpos_of_nonneg_of_nonpos hxsign hysign
      · exact div_nonpos_of_nonpos_of_nonneg hxsign hysign
      · exact div_nonneg_of_nonpos hxsign hysign

end

section

variable {x y : Double} {r s e e' : ℝ}

theorem Near.trans (hx : x.Near r e) (h : |r - s| ≤ e') : x.Near s (e + e') :=
  ⟨hx.finite, (abs_sub_le _ _ _).trans (add_le_add hx.error h)⟩

theorem Near.add (bound : ℝ) (hx : x.Near r e) (hy : y.Near s e')
    (h : |r| + |s| + e + e' ≤ bound) (hbound : bound ≤ 10 ^ 20) :
    (x + y).Near (r + s) ((bound + 1) / 2 ^ 53 + (e + e')) := by
  have herror : |x.real + y.real - (r + s)| ≤ e + e' := by
    rw [add_sub_add_comm]
    exact (abs_add_le _ _).trans (add_le_add hx.error hy.error)
  have hsum : |x.real + y.real| ≤ bound := by
    have := abs_sub_abs_le_abs_sub (x.real + y.real) (r + s)
    linarith [abs_add_le r s]
  exact (add_near hx.finite hy.finite hsum hbound).trans herror

end

theorem Near.abs_value_sub_le {x : Double} {q error : ℚ} (h : x.Near q error) :
    |x.value - q| ≤ error := by
  have hreal := h.error
  unfold Double.real at hreal
  exact_mod_cast hreal

end Double

/-- The double of a finite number that is not too large. -/
theorem Number.exists_toDouble {x : Number} (hx : x.Finite) (h : |x.value| ≤ 1000000) :
    ∃ d, x.toDouble = .ok d ∧ d.Near x.value (1 / 10 ^ 9) := by
  have hreal : |(x.value : ℝ)| ≤ 1000000 := by exact_mod_cast h
  cases x with
  | integer n =>
    have hnear := Double.ofRat_near hreal (by norm_num)
    exact ⟨Double.ofRat n, if_pos hnear.finite, hnear.mono (by norm_num)⟩
  | double d => exact ⟨d, rfl, (Double.near_self hx).mono (by norm_num)⟩

end StyleValue
