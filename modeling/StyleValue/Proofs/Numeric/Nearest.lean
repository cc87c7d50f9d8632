import StyleValue.Proofs.Numeric.Accuracy
import StyleValue.Proofs.Numeric.Significant

/-!
# The nearest double

A magnitude is rounded to a multiple of the unit of its last binary digit. No finite double is
nearer to it, also among those of other units. What is half a unit or more above the greatest double
becomes infinite, and what is not more than half of the least double becomes zero.
-/

set_option autoImplicit false

namespace StyleValue

namespace Double

def beyond : ℚ := 2 ^ (1024 : ℕ) - 2 ^ (970 : ℕ)

section Mantissa

variable {q : ℚ}

/-- The mantissa of a magnitude is the nearest integer in its unit, and a carry goes to the next
exponent. -/
theorem nearest_eq_ofParts (hq : 0 < q) (negative : Bool) :
    ∃ m : ℕ, (m : ℤ) = halfEven (q / 2 ^ roundingExponent q) ∧
      nearest negative q = if m = twoPow 53
        then ofParts negative (twoPow 52) (roundingExponent q + 1)
        else ofParts negative m (roundingExponent q) := by
  have hn : 0 < q.num.natAbs := Int.natAbs_pos.2 (Rat.num_ne_zero.2 hq.ne')
  have habs := abs_eq_div q
  have hexponent := max_leadingExponent hn
  rw [abs_of_pos hq] at habs hexponent
  refine ⟨divideHalfEven (q.num.natAbs * twoPow (-roundingExponent q).toNat)
    (q.den * twoPow (roundingExponent q).toNat), ?_, ?_⟩
  · rw [← halfEven_div _ _ (Nat.mul_pos q.den_pos (twoPow_pos _)), scaled_eq, ← habs]
  · unfold nearest
    dsimp only
    rw [if_neg hn.ne', hexponent]

theorem mantissa_le_twoPow {m : ℕ} (hm : (m : ℤ) = halfEven (q / 2 ^ roundingExponent q)) :
    m ≤ twoPow 53 := by
  have hle : halfEven (q / 2 ^ roundingExponent q) ≤ (twoPow 53 : ℕ) := by
    apply halfEven_le
    rw [Int.cast_natCast, cast_twoPow]
    linarith [scaled_lt_mantissa q]
  rw [← hm] at hle
  exact_mod_cast hle

theorem twoPow_le_mantissa (hq : 0 < q) {m : ℕ}
    (hm : (m : ℤ) = halfEven (q / 2 ^ roundingExponent q)) (h : roundingExponent q ≠ -1074) :
    twoPow 52 ≤ m := by
  have hle : ((twoPow 52 : ℕ) : ℤ) ≤ halfEven (q / 2 ^ roundingExponent q) := by
    apply le_halfEven
    rw [Int.cast_natCast, cast_twoPow]
    exact le_scaled_mantissa q hq h
  rw [← hm] at hle
  exact_mod_cast hle

end Mantissa

theorem beyond_eq : beyond = (2 ^ (53 : ℕ) - 1 / 2) * 2 ^ (971 : ℤ) := by
  have h1024 : (2 : ℚ) ^ (1024 : ℕ) = 2 ^ (54 : ℕ) * 2 ^ (970 : ℕ) := by rw [← pow_add]
  have h971 : (2 : ℚ) ^ (971 : ℤ) = 2 * 2 ^ (970 : ℕ) := by
    rw [← pow_succ', ← zpow_natCast]
    rfl
  rw [beyond, h1024, h971]
  generalize (2 : ℚ) ^ (970 : ℕ) = u
  ring

theorem not_canonical_of_lt {m : ℕ} {e : ℤ} (h : 971 < e) : ¬ Canonical m e :=
  fun hc => absurd hc.2.2.1 (by omega)

theorem two_zpow_le_beyond : (2 : ℚ) ^ (1023 : ℤ) ≤ beyond := by
  rw [beyond_eq, show (1023 : ℤ) = 52 + 971 from rfl, zpow_add₀ two_ne_zero]
  gcongr
  norm_num

theorem beyond_le_two_zpow : beyond ≤ (2 : ℚ) ^ (1024 : ℤ) := by
  rw [beyond_eq, show (1024 : ℤ) = 53 + 971 from rfl, zpow_add₀ two_ne_zero]
  gcongr
  norm_num

theorem le_roundingExponent {q : ℚ} (hq : beyond ≤ q) : 971 ≤ roundingExponent q := by
  have hle := two_zpow_le_beyond.trans hq
  have hpos : (0 : ℚ) < 2 ^ (1023 : ℤ) := by positivity
  have hlog : 1023 ≤ Int.log 2 q :=
    (Int.zpow_le_iff_le_log one_lt_two (hpos.trans_le hle)).1 hle
  unfold roundingExponent
  omega

theorem roundingExponent_le_of_lt {q : ℚ} (hpos : 0 < q) (hq : q < beyond) :
    roundingExponent q ≤ 971 := by
  have hlt := hq.trans_le beyond_le_two_zpow
  have hlog : Int.log 2 q < 1024 := (Int.lt_zpow_iff_log_lt one_lt_two hpos).1 hlt
  unfold roundingExponent
  omega

theorem nearest_of_ge {q : ℚ} (hq : beyond ≤ q) (negative : Bool) :
    nearest negative q = .infinite negative := by
  have hpos : 0 < q := lt_of_lt_of_le (by positivity) (two_zpow_le_beyond.trans hq)
  obtain ⟨m, hm, hnearest⟩ := nearest_eq_ofParts hpos negative
  rw [hnearest]
  rcases (le_roundingExponent hq).lt_or_eq with hlt | heq
  · split
    · rw [ofParts, dif_neg (not_canonical_of_lt (by omega))]
    · rw [ofParts, dif_neg (not_canonical_of_lt hlt)]
  · -- The magnitude is half a unit below the next power of two, which is the even neighbour.
    rw [if_pos, ofParts, dif_neg (not_canonical_of_lt (by omega))]
    have hscaled : (2 : ℚ) ^ (53 : ℕ) - 1 / 2 ≤ q / 2 ^ roundingExponent q := by
      rwa [le_div_iff₀ (by positivity), ← heq, ← beyond_eq]
    refine le_antisymm (mantissa_le_twoPow hm) (not_lt.1 fun hlt => ?_)
    have hle : (m : ℚ) + 1 ≤ 2 ^ (53 : ℕ) := by
      rw [← cast_twoPow]
      exact_mod_cast hlt
    have hnear := eq_halfEven_iff.1 hm
    rw [Int.cast_natCast, abs_of_nonpos (by linarith)] at hnear
    rcases hnear with hnear | ⟨htie, heven⟩
    · linarith
    · have hodd : m + 1 = twoPow 53 := by
        have : ((m + 1 : ℕ) : ℚ) = (twoPow 53 : ℕ) := by
          rw [cast_twoPow]
          push_cast
          linarith
        exact_mod_cast this
      have hpow : Even (twoPow 53) := by decide
      rw [← hodd, Nat.even_add_one] at hpow
      exact hpow ((Int.even_coe_nat m).1 heven)

theorem nearest_of_le {q : ℚ} (h0 : 0 ≤ q) (hq : q ≤ 2 ^ (-1075 : ℤ)) (negative : Bool) :
    nearest negative q = zero negative := by
  rcases h0.eq_or_lt with rfl | hpos
  · exact nearest_zero negative
  obtain ⟨m, hm, hnearest⟩ := nearest_eq_ofParts hpos negative
  have hlog : Int.log 2 q ≤ -1075 := by
    have := Int.log_mono_right (b := 2) hpos hq
    rwa [show (2 : ℚ) = ((2 : ℕ) : ℚ) from rfl, Int.log_zpow (by norm_num)] at this
  have hexponent : roundingExponent q = -1074 := by
    unfold roundingExponent
    omega
  have hhalf : q / 2 ^ (-1074 : ℤ) ≤ 1 / 2 := by
    rw [div_le_iff₀ (by positivity)]
    refine hq.trans (le_of_eq ?_)
    rw [show (-1074 : ℤ) = -1075 + 1 from rfl, zpow_add_one₀ two_ne_zero]
    ring
  obtain rfl : m = 0 := by
    have hzero : (0 : ℤ) = halfEven (q / 2 ^ (-1074 : ℤ)) := by
      have hnonneg : 0 ≤ q / 2 ^ (-1074 : ℤ) := by positivity
      rw [eq_halfEven_iff, Int.cast_zero, zero_sub, abs_neg, abs_of_nonneg hnonneg]
      rcases hhalf.lt_or_eq with h | h
      · exact .inl h
      · exact .inr ⟨h, by decide⟩
    rw [hexponent, ← hzero] at hm
    exact_mod_cast hm
  rw [hnearest, hexponent, if_neg (by decide), ofParts, dif_pos (by decide)]
  rfl

/-- The magnitude of a finite double is a multiple of a unit, or smaller than all mantissas that
are full in this unit. -/
theorem exists_multiple_or_lt {y : Double} (hy : y.isFinite) (e : ℤ) :
    (∃ k : ℕ, |y.value| = k * 2 ^ e) ∨ -1074 < e ∧ |y.value| < 2 ^ (52 : ℕ) * 2 ^ e := by
  cases y with
  | notANumber | infinite => cases hy
  | finite s m e' h =>
    have habs : |(Double.finite s m e' h).value| = m * 2 ^ e' := by
      have hpos : |(m * 2 ^ e' : ℚ)| = m * 2 ^ e' := abs_of_nonneg (by positivity)
      cases s <;> simp [value, hpos]
    rw [habs]
    rcases le_or_gt e e' with he | he
    · obtain ⟨i, rfl⟩ := Int.le.dest he
      refine .inl ⟨m * 2 ^ i, ?_⟩
      rw [zpow_add₀ two_ne_zero, zpow_natCast]
      push_cast
      ring
    · refine .inr ⟨lt_of_le_of_lt h.2.1 he, ?_⟩
      have hm : (m : ℚ) < 2 ^ (53 : ℕ) := by
        rw [← cast_twoPow]
        exact_mod_cast h.1
      calc (m : ℚ) * 2 ^ e' < 2 ^ (53 : ℕ) * 2 ^ e' := by gcongr
        _ = 2 ^ (52 : ℕ) * 2 ^ (e' + 1) := by
            rw [zpow_add_one₀ two_ne_zero]
            ring
        _ ≤ 2 ^ (52 : ℕ) * 2 ^ e := by
            gcongr
            · norm_num
            · omega

theorem value_finite (negative : Bool) {m : ℕ} {e : ℤ} (h : Canonical m e) :
    (Double.finite negative m e h).value = signed negative (m * 2 ^ e) := by
  cases negative <;> simp [value, signed]

def HasEvenMantissa : Double → Prop
  | .finite _ mantissa _ _ => Even mantissa
  | _ => False

theorem ofParts_of_lt {q : ℚ} (hpos : 0 < q) (hq : q < beyond) {m : ℕ}
    (hm : (m : ℤ) = halfEven (q / 2 ^ roundingExponent q)) (negative : Bool) :
    ∃ x : Double, x = (if m = twoPow 53
        then ofParts negative (twoPow 52) (roundingExponent q + 1)
        else ofParts negative m (roundingExponent q)) ∧ x.isFinite ∧ x.isNegative = negative ∧
      x.value = signed negative (m * 2 ^ roundingExponent q) ∧
      (Even m → x.HasEvenMantissa) := by
  have hle := roundingExponent_le_of_lt hpos hq
  have hge : -1074 ≤ roundingExponent q := le_max_right _ _
  have hmax := mantissa_le_twoPow hm
  refine ⟨_, rfl, ?_⟩
  by_cases hcarry : m = twoPow 53
  · have hlt : roundingExponent q ≠ 971 := by
      intro heq
      have hscaled : q / 2 ^ roundingExponent q < ((twoPow 53 - 1 : ℕ) : ℤ) + 1 / 2 := by
        rw [div_lt_iff₀ (by positivity), heq]
        refine hq.trans_eq ?_
        rw [beyond_eq, Int.cast_natCast, Nat.cast_sub (twoPow_pos 53), cast_twoPow]
        norm_num
      have hle := halfEven_le hscaled
      rw [← hm, hcarry] at hle
      exact absurd (Int.ofNat_le.1 hle) (by decide)
    have hcanonical : Canonical (twoPow 52) (roundingExponent q + 1) :=
      ⟨by decide, by omega, by omega, .inl le_rfl⟩
    rw [if_pos hcarry, ofParts, dif_pos hcanonical, value_finite, hcarry, cast_twoPow, cast_twoPow,
      zpow_add_one₀ two_ne_zero]
    have heven : Even (twoPow 52) := by decide
    refine ⟨rfl, rfl, ?_, fun _ => heven⟩
    congr 1
    ring
  · have hcanonical : Canonical m (roundingExponent q) := by
      refine ⟨by omega, hge, hle, ?_⟩
      by_cases hleast : roundingExponent q = -1074
      · exact .inr hleast
      · exact .inl (twoPow_le_mantissa hpos hm hleast)
    rw [if_neg hcarry, ofParts, dif_pos hcanonical, value_finite]
    exact ⟨rfl, rfl, rfl, id⟩

/-- The error of a rounded magnitude against that of any finite double: it is less, or the two are
equal in size, or the mantissa is even. -/
theorem error_lt_or_tie {q : ℚ} (hpos : 0 < q) {m : ℕ}
    (hm : (m : ℤ) = halfEven (q / 2 ^ roundingExponent q)) {y : Double} (hy : y.isFinite) :
    |m * 2 ^ roundingExponent q - q| < abs (|y.value| - q) ∨
      |y.value| = m * 2 ^ roundingExponent q ∨
      |m * 2 ^ roundingExponent q - q| = abs (|y.value| - q) ∧ Even m := by
  have hunit : (0 : ℚ) < 2 ^ roundingExponent q := by positivity
  -- The error in units of the last digit, against that of a number of such units.
  have herror (n : ℕ) : |n * 2 ^ roundingExponent q - q| =
      |(n : ℚ) - q / 2 ^ roundingExponent q| * 2 ^ roundingExponent q := by
    rw [← abs_of_pos hunit, ← abs_mul, abs_of_pos hunit, sub_mul, div_mul_cancel₀ _ hunit.ne']
  have hle (k : ℕ) : |m * 2 ^ roundingExponent q - q| ≤ |k * 2 ^ roundingExponent q - q| := by
    have := abs_halfEven_sub_le (q / 2 ^ roundingExponent q) k
    rw [← hm, Int.cast_natCast, Int.cast_natCast] at this
    rw [herror, herror]
    gcongr
  rcases exists_multiple_or_lt hy (roundingExponent q) with ⟨k, hk⟩ | ⟨hleast, hlt⟩
  · rw [hk]
    by_cases hkm : k = m
    · exact .inr (.inl (by rw [hkm]))
    · rcases (hle k).lt_or_eq with hless | hsame
      · exact .inl hless
      · refine .inr (.inr ⟨hsame, ?_⟩)
        rw [herror, herror, mul_left_inj' hunit.ne'] at hsame
        rw [← Int.even_coe_nat, hm]
        refine even_halfEven_of_tie (n := k) (by omega) ?_
        rw [← hm, Int.cast_natCast, Int.cast_natCast, hsame]
  · -- A magnitude of full mantissas is not below the least of them, and the other double is.
    have hfull := le_scaled_mantissa q hpos hleast.ne'
    rw [le_div_iff₀ hunit] at hfull
    refine .inl ((hle (2 ^ 52)).trans_lt ?_)
    push_cast
    rw [abs_of_nonpos (by linarith), abs_of_nonpos (by linarith)]
    linarith

/-- A double of a sign that a magnitude is rounded to: none is nearer, and of two as near it is the
one with the even mantissa. What is beyond all finite doubles becomes infinite, and what is too
small for any but zero becomes zero. -/
structure IsNearest (negative : Bool) (q : ℚ) (x : Double) : Prop where
  sign : x.isNegative = negative
  infinite : beyond ≤ q → x = .infinite negative
  zero : q ≤ 2 ^ (-1075 : ℤ) → x = .zero negative
  finite : q < beyond → x.isFinite
  nearest : q < beyond → ∀ y : Double, y.isFinite →
    |x.value - signed negative q| ≤ |y.value - signed negative q|
  tie : q < beyond → ∀ y : Double, y.isFinite →
    |x.value - signed negative q| = |y.value - signed negative q| →
      y.value = x.value ∨ x.HasEvenMantissa

theorem beyond_pos : 0 < beyond := lt_of_lt_of_le (by positivity) two_zpow_le_beyond

theorem le_error (negative : Bool) {q : ℚ} (hpos : 0 < q) (y : ℚ) :
    abs (|y| - q) ≤ |y - signed negative q| := by
  have h := abs_abs_sub_abs_le y (signed negative q)
  rwa [abs_signed, abs_of_pos hpos] at h

theorem eq_of_tie {negative : Bool} {q r x y : ℚ} (hpos : 0 < q) (hr : 0 ≤ r)
    (hx : x = signed negative r) (hy : |y| = r) (htie : |r - q| = |y - signed negative q|) :
    y = x := by
  have habs : |x| = r := by rw [hx, abs_signed, abs_of_nonneg hr]
  rcases abs_eq_abs.1 (hy.trans habs.symm) with hsame | hopposite
  · exact hsame
  · have hsum : |r - q| = r + q := by
      have hdifference : y - signed negative q = -signed negative (r + q) := by
        rw [hopposite, hx]
        cases negative <;> simp only [signed, Bool.false_eq_true, if_false, if_true] <;> ring
      rw [htie, hdifference, abs_neg, abs_signed, abs_of_pos (by linarith)]
    have hzero : r = 0 := by
      rcases abs_cases (r - q) with ⟨habs, -⟩ | ⟨habs, -⟩ <;> linarith
    rw [hzero, abs_eq_zero] at habs hy
    rw [habs, hy]

theorem isNearest_nearest {q : ℚ} (h : 0 ≤ q) (negative : Bool) :
    IsNearest negative q (nearest negative q) := by
  rcases h.eq_or_lt with rfl | hpos
  · have hsigned : signed negative 0 = 0 := by cases negative <;> simp [signed]
    rw [nearest_zero]
    exact ⟨rfl, fun hge => absurd beyond_pos hge.not_gt, fun _ => rfl, fun _ => rfl,
      fun _ y _ => by simp [hsigned], fun _ _ _ _ => .inr Even.zero⟩
  rcases lt_or_ge q beyond with hq | hq
  · obtain ⟨m, hm, hnearest⟩ := nearest_eq_ofParts hpos negative
    obtain ⟨x, hx, hfinite, hsign, hvalue, heven⟩ := ofParts_of_lt hpos hq hm negative
    rw [← hx] at hnearest
    have hzero (hle : q ≤ 2 ^ (-1075 : ℤ)) : x = zero negative :=
      hnearest.symm.trans (nearest_of_le h hle negative)
    rw [hnearest]
    have herror : |x.value - signed negative q| = |m * 2 ^ roundingExponent q - q| := by
      rw [hvalue, abs_signed_sub_signed]
    have hother (y : Double) := le_error negative hpos y.value
    refine ⟨hsign, fun hge => absurd hq hge.not_gt, hzero, fun _ => hfinite, ?_, ?_⟩
    · intro _ y hy
      rw [herror]
      refine le_trans ?_ (hother y)
      rcases error_lt_or_tie hpos hm hy with hless | hsame | ⟨htie, -⟩
      · exact hless.le
      · rw [hsame]
      · exact htie.le
    · intro _ y hy htie
      rw [herror] at htie
      have hle := hother y
      rcases error_lt_or_tie hpos hm hy with hless | hsame | ⟨-, hm⟩
      · exact absurd (hless.trans_le hle) htie.not_lt
      · refine .inl (eq_of_tie hpos (by positivity) hvalue ?_ htie)
        rw [hsame]
      · exact .inr (heven hm)
  · rw [nearest_of_ge hq]
    have hlarge : (2 : ℚ) ^ (-1075 : ℤ) < q := by
      refine lt_of_lt_of_le ?_ (two_zpow_le_beyond.trans hq)
      exact zpow_lt_zpow_right₀ one_lt_two (by norm_num)
    exact ⟨rfl, fun _ => rfl, fun hle => absurd hle hlarge.not_ge,
      fun hlt => absurd hlt hq.not_gt, fun hlt => absurd hlt hq.not_gt,
      fun hlt => absurd hlt hq.not_gt⟩

end Double

namespace Decimal

theorem beyond_le_tenPow : Double.beyond ≤ 10 ^ (401 : ℤ) :=
  calc Double.beyond ≤ 2 ^ (1024 : ℤ) := Double.beyond_le_two_zpow
    _ ≤ 2 ^ (3 * 401 : ℤ) := zpow_le_zpow_right₀ one_le_two (by norm_num)
    _ = (2 ^ (3 : ℤ)) ^ (401 : ℤ) := zpow_mul 2 3 401
    _ ≤ 10 ^ (401 : ℤ) := zpow_le_zpow_left₀ (by norm_num) (by positivity) (by norm_num)

theorem tenPow_le_half : (10 : ℚ) ^ (-400 : ℤ) ≤ 2 ^ (-1075 : ℤ) := by
  have h : (2 : ℚ) ^ (1075 : ℤ) ≤ 10 ^ (400 : ℤ) :=
    calc (2 : ℚ) ^ (1075 : ℤ) ≤ 2 ^ (3 * 400 : ℤ) := zpow_le_zpow_right₀ one_le_two (by norm_num)
      _ = (2 ^ (3 : ℤ)) ^ (400 : ℤ) := zpow_mul 2 3 400
      _ ≤ 10 ^ (400 : ℤ) := zpow_le_zpow_left₀ (by norm_num) (by positivity) (by norm_num)
  rw [zpow_neg, zpow_neg]
  exact inv_anti₀ (by positivity) h

/-- The double nearest to a decimal, also where its magnitude is not computed. -/
theorem toDouble_eq_nearest (d : Decimal) :
    d.toDouble = .nearest d.negative d.magnitude := by
  unfold toDouble
  split
  · next hzero =>
    rw [magnitude, hzero, Nat.cast_zero, zero_mul, Double.nearest_zero]
  · next hne =>
    split
    · next hlarge =>
      refine (Double.nearest_of_ge ?_ _).symm
      exact beyond_le_tenPow.trans ((lt_leadingExponent_iff hne 400).1 hlarge)
    · split
      · next hsmall =>
        refine (Double.nearest_of_le d.magnitude_nonneg ?_ _).symm
        have hlt : ¬ (10 : ℚ) ^ (-401 + 1 : ℤ) ≤ d.magnitude := by
          rw [← lt_leadingExponent_iff hne]
          omega
        exact (not_le.1 hlt).le.trans tenPow_le_half
      · rfl

end Decimal

end StyleValue
