import StyleValue.Proofs.Numeric.Nearest

/-!
# The shortest decimal

Doubles of a sign are at least a part in `2 ^ 53` apart, so a magnitude that is off one of them by
less than half of that is rounded to it. A decimal of 17 digits is always as near as that, and hence
the search for the shortest decimal that reads back as a double finds one.
-/

set_option autoImplicit false

namespace StyleValue

namespace Double

section Value

variable {x y : Double}

theorem value_eq_signed (x : Double) : x.value = signed x.isNegative |x.value| := by
  have hsign := x.sign_value
  unfold signed
  cases hx : x.isNegative <;> simp only [hx, if_true, Bool.false_eq_true, if_false] at hsign ⊢
  · rw [abs_of_nonneg hsign]
  · rw [abs_of_nonpos hsign, neg_neg]

theorem abs_value_finite (negative : Bool) {m : ℕ} {e : ℤ} (h : Canonical m e) :
    |(Double.finite negative m e h).value| = m * 2 ^ e := by
  rw [value_finite, abs_signed, abs_of_nonneg (by positivity)]

theorem exponent_eq_of_le {m n : ℕ} {e f : ℤ} (hm : Canonical m e) (hn : Canonical n f)
    (hle : e ≤ f) (h : (m : ℚ) * 2 ^ e = n * 2 ^ f) : e = f := by
  obtain ⟨i, rfl⟩ := Int.le.dest hle
  have hmantissa : m = n * 2 ^ i := by
    have hpower : (0 : ℚ) < 2 ^ e := by positivity
    rw [zpow_add₀ two_ne_zero, zpow_natCast, mul_left_comm, mul_comm] at h
    exact_mod_cast mul_left_cancel₀ hpower.ne' h
  cases i with
  | zero => simp
  | succ i =>
    -- The mantissa in the lower unit would have a digit more than there is room for.
    have hfull : twoPow 52 ≤ n := hn.2.2.2.resolve_right (by have := hm.2.1; omega)
    have hroom := hm.1
    have hdouble : n * 2 ≤ m := by
      rw [hmantissa, pow_succ', ← mul_assoc]
      exact Nat.le_mul_of_pos_right _ (by positivity)
    have hpower : twoPow 53 = twoPow 52 * 2 := by decide
    omega

/-- Finite doubles of a sign are the same if they are of the same size. -/
theorem eq_of_abs_value_eq (hx : x.isFinite) (hy : y.isFinite) (hsign : x.isNegative = y.isNegative)
    (h : |x.value| = |y.value|) : x = y := by
  cases x with
  | notANumber | infinite => cases hx
  | finite s m e hm =>
    cases y with
    | notANumber | infinite => cases hy
    | finite t n f hn =>
      obtain rfl : s = t := hsign
      rw [abs_value_finite, abs_value_finite] at h
      obtain rfl : e = f := (le_total e f).elim (fun hle => exponent_eq_of_le hm hn hle h)
        fun hle => (exponent_eq_of_le hn hm hle h.symm).symm
      have hpower : (2 : ℚ) ^ e ≠ 0 := by positivity
      obtain rfl : m = n := by exact_mod_cast mul_right_cancel₀ hpower h
      rfl

/-- What is below the full mantissas of a unit is so by half a unit. -/
theorem abs_value_le_of_lt {e : ℤ} (hy : y.isFinite) (h : |y.value| < 2 ^ (52 : ℕ) * 2 ^ e) :
    |y.value| ≤ (2 ^ (52 : ℕ) - 1 / 2) * 2 ^ e := by
  have hunit : (0 : ℚ) < 2 ^ (e - 1) := by positivity
  have hhalf : (2 : ℚ) ^ e = 2 * 2 ^ (e - 1) := by
    rw [zpow_sub_one₀ two_ne_zero]
    ring
  rw [hhalf] at h ⊢
  rcases exists_multiple_or_lt hy (e - 1) with ⟨k, hk⟩ | ⟨-, hlt⟩
  · have hless : (k : ℚ) < (2 ^ 53 : ℕ) := by
      rw [hk] at h
      refine lt_of_mul_lt_mul_right (h.trans_eq ?_) hunit.le
      push_cast
      ring
    have hle : (k : ℚ) + 1 ≤ (2 ^ 53 : ℕ) := by exact_mod_cast hless
    push_cast at hle
    rw [hk]
    nlinarith
  · linarith

/-- Finite doubles of a sign that are less than a part in `2 ^ 53` apart are the same. -/
theorem eq_of_abs_sub_lt (hx : x.isFinite) (hy : y.isFinite) (hsign : x.isNegative = y.isNegative)
    (h : abs (|y.value| - |x.value|) < |x.value| / 2 ^ (53 : ℕ)) : x = y := by
  cases x with
  | notANumber | infinite => cases hx
  | finite s m e hm =>
    have hunit : (0 : ℚ) < 2 ^ e := by positivity
    rw [abs_value_finite] at h
    refine eq_of_abs_value_eq hx hy hsign ?_
    rw [abs_value_finite]
    rcases exists_multiple_or_lt hy e with ⟨k, hk⟩ | ⟨hleast, hlt⟩
    · -- Both are multiples of the unit, and less than a unit apart.
      have hroom : (m : ℚ) < 2 ^ (53 : ℕ) := by
        rw [← cast_twoPow]
        exact_mod_cast hm.1
      have hclose : |((k : ℤ) : ℚ) - (m : ℤ)| < 1 := by
        rw [hk, ← sub_mul, abs_mul, abs_of_pos hunit, mul_div_right_comm] at h
        have := lt_of_mul_lt_mul_right h hunit.le
        push_cast
        exact this.trans ((div_lt_one (by positivity)).2 hroom)
      have hzero : |(k : ℤ) - m| < 1 := by exact_mod_cast hclose
      obtain rfl : k = m := by exact_mod_cast sub_eq_zero.1 (Int.abs_lt_one_iff.1 hzero)
      exact hk.symm
    · -- Only the other one is below the full mantissas of the unit.
      exfalso
      have hfull : (2 : ℚ) ^ (52 : ℕ) ≤ m := by
        rw [← cast_twoPow]
        exact_mod_cast hm.2.2.2.resolve_right hleast.ne'
      have hbelow := abs_value_le_of_lt hy hlt
      have hgap : ((m : ℚ) - (2 ^ (52 : ℕ) - 1 / 2)) * 2 ^ e < m * 2 ^ e / 2 ^ (53 : ℕ) := by
        rw [abs_sub_comm] at h
        linarith [le_abs_self (m * 2 ^ e - |y.value|)]
      rw [mul_div_right_comm] at hgap
      have hgap' := lt_of_mul_lt_mul_right hgap hunit.le
      norm_num at hgap'
      linarith

theorem lt_beyond {q : ℚ} (hx : x.isFinite) (h : q - |x.value| < |x.value| / 2 ^ (54 : ℕ)) :
    q < beyond := by
  cases x with
  | notANumber | infinite => cases hx
  | finite s m e hm =>
    have hlarge : (m : ℚ) * 2 ^ e ≤ (2 ^ (53 : ℕ) - 1) * 2 ^ (971 : ℤ) := by
      have hroom : (m : ℚ) + 1 ≤ 2 ^ (53 : ℕ) := by
        rw [← cast_twoPow]
        exact_mod_cast hm.1
      gcongr
      · linarith
      · norm_num
      · exact hm.2.2.1
    rw [abs_value_finite] at h
    have hunit : (0 : ℚ) < 2 ^ (971 : ℤ) := by positivity
    rw [beyond_eq]
    generalize (2 : ℚ) ^ (971 : ℤ) = u at hlarge hunit ⊢
    norm_num at hlarge h ⊢
    linarith

/-- A magnitude that is off a double by less than a part in `2 ^ 54` is rounded to it. -/
theorem nearest_of_near {q : ℚ} (hx : x.isFinite) (hq : 0 ≤ q)
    (h : abs (q - |x.value|) < |x.value| / 2 ^ (54 : ℕ)) : nearest x.isNegative q = x := by
  have hbeyond := lt_beyond hx ((le_abs_self _).trans_lt h)
  have hnearest := isNearest_nearest hq x.isNegative
  have hsign := hnearest.sign
  have herror := hnearest.nearest hbeyond x hx
  rw [value_eq_signed x, value_eq_signed (nearest x.isNegative q), hsign, abs_signed_sub_signed,
    abs_signed_sub_signed, abs_sub_comm |x.value|] at herror
  refine (eq_of_abs_sub_lt hx (hnearest.finite hbeyond) hsign.symm ?_).symm
  calc abs (|(nearest x.isNegative q).value| - |x.value|)
      ≤ abs (|(nearest x.isNegative q).value| - q) + abs (q - |x.value|) := abs_sub_le _ _ _
    _ < |x.value| / 2 ^ (54 : ℕ) + |x.value| / 2 ^ (54 : ℕ) := by linarith
    _ = |x.value| / 2 ^ (53 : ℕ) := by ring

end Value

section Search

variable {x : Double} {length : ℕ}

def inUnits (x : Double) (length : ℕ) : ℚ := |x.value| / significantUnit length |x.value|

def decimalOfUnits (x : Double) (length count : ℕ) : Decimal :=
  ⟨x.isNegative, count, Int.log 10 |x.value| + 1 - length⟩

theorem magnitude_decimalOfUnits (x : Double) (length count : ℕ) :
    (x.decimalOfUnits length count).magnitude = count * significantUnit length |x.value| := by
  rw [significantUnit, abs_abs]
  rfl

theorem find?_eq_ite {α : Type} (p : α → Bool) (a : α) (l : List α) :
    (a :: l).find? p = if p a then some a else l.find? p := by
  rw [List.find?_cons]
  cases p a <;> rfl

/-- Three decimals are tried: that of the nearest number of units, and those of the numbers on both
sides. -/
theorem decimalOfLength?_eq (hx : x.value ≠ 0) (length : ℕ) :
    x.decimalOfLength? length =
      ([(halfEven (x.inUnits length)).toNat, ⌊x.inUnits length⌋₊, ⌊x.inUnits length⌋₊ + 1].map
        (x.decimalOfUnits length)).find? fun d => d.toDouble == x := by
  have hnum : 0 < x.value.num.natAbs := Int.natAbs_pos.2 (Rat.num_ne_zero.2 hx)
  have hunits := div_tenPow_eq x.value.num.natAbs x.value.den (Int.log 10 |x.value| + 1 - length)
  have hpos : 0 < x.value.den * tenPow (Int.log 10 |x.value| + 1 - length).toNat :=
    Nat.mul_pos x.value.den_pos (tenPow_pos _)
  rw [← abs_eq_div] at hunits
  unfold decimalOfLength?
  dsimp only
  rw [decimalMagnitude_eq_log hnum x.value.den_pos, ← abs_eq_div, inUnits, significantUnit,
    abs_abs, ← hunits, halfEven_div _ _ hpos, Int.toNat_natCast, Nat.floor_div_eq_div]
  rw [List.map_cons, List.map_cons, List.map_cons, find?_eq_ite, find?_eq_ite, find?_eq_ite]
  rfl

theorem inUnits_nonneg (x : Double) (length : ℕ) : 0 ≤ x.inUnits length :=
  div_nonneg (abs_nonneg _) (significantUnit_pos _ _).le

theorem inUnits_lt (x : Double) (length : ℕ) : x.inUnits length < 10 ^ length := by
  rw [inUnits, significantUnit, abs_abs, div_lt_iff₀ (by positivity), ← zpow_natCast,
    ← zpow_add₀ (by norm_num), add_sub_cancel]
  exact_mod_cast Int.lt_zpow_succ_log_self (b := 10) (by norm_num) |x.value|

/-- What is found reads back, and has no more digits than were asked for, but for a power of ten. -/
theorem of_decimalOfLength? (hx : x.value ≠ 0) {d : Decimal}
    (h : x.decimalOfLength? length = some d) : d.toDouble = x ∧ d.coefficient ≤ 10 ^ length := by
  rw [decimalOfLength?_eq hx] at h
  have hlt := x.inUnits_lt length
  have hnearer : (halfEven (x.inUnits length)).toNat ≤ 10 ^ length := by
    rw [Int.toNat_le]
    apply halfEven_le
    push_cast
    linarith
  have hbelow : ⌊x.inUnits length⌋₊ < 10 ^ length := by
    rw [Nat.floor_lt (x.inUnits_nonneg length)]
    exact_mod_cast hlt
  refine ⟨by simpa using List.find?_some h, ?_⟩
  obtain ⟨count, hcount, rfl⟩ := List.mem_map.1 (List.mem_of_find?_eq_some h)
  show count ≤ _
  simp only [List.mem_cons, List.not_mem_nil, or_false] at hcount
  obtain rfl | rfl | rfl := hcount
  · exact hnearer
  · exact hbelow.le
  · exact hbelow

/-- A decimal is found if the double rounded to the digits reads back. -/
theorem isSome_decimalOfLength? (hx : x.value ≠ 0)
    (h : nearest x.isNegative (roundSignificant length |x.value|) = x) :
    (x.decimalOfLength? length).isSome := by
  rw [decimalOfLength?_eq hx, List.find?_isSome]
  refine ⟨x.decimalOfUnits length (halfEven (x.inUnits length)).toNat, by simp, ?_⟩
  have hnonneg : 0 ≤ halfEven (x.inUnits length) := by
    apply le_halfEven
    rw [Int.cast_zero]
    exact x.inUnits_nonneg length
  rw [beq_iff_eq, Decimal.toDouble_eq_nearest, magnitude_decimalOfUnits, ← Int.cast_natCast,
    Int.toNat_of_nonneg hnonneg]
  exact h

/-- A double that is rounded to 17 digits is rounded to itself again. -/
theorem nearest_roundSignificant (hx : x.isFinite) (hzero : x.value ≠ 0) :
    nearest x.isNegative (roundSignificant 17 |x.value|) = x := by
  have hpos := abs_pos.2 hzero
  refine nearest_of_near hx (roundSignificant_nonneg 17 hpos.le) ?_
  have hunit := significantUnit_le 17 (by decide) hpos.ne'
  rw [abs_abs] at hunit
  refine (abs_roundSignificant_sub_le 17 |x.value|).trans_lt ?_
  norm_num at hunit ⊢
  linarith

theorem exists_decimalOfLength? (hx : x.isFinite) (hzero : x.value ≠ 0) : ∃ d length,
    length ≤ 17 ∧ x.decimalOfLength? length = some d ∧
      (List.range 17).findSome? (fun n => x.decimalOfLength? (n + 1)) = some d := by
  have hfound : ((List.range 17).findSome? fun n => x.decimalOfLength? (n + 1)).isSome :=
    List.findSome?_isSome_iff.2 ⟨16, List.mem_range.2 (by decide),
      isSome_decimalOfLength? hzero (nearest_roundSignificant hx hzero)⟩
  obtain ⟨d, hd⟩ := Option.isSome_iff_exists.1 hfound
  obtain ⟨n, hn, hlength⟩ := List.exists_of_findSome?_eq_some hd
  have := List.mem_range.1 hn
  exact ⟨d, n + 1, by omega, hlength, hd⟩

/-- The shortest decimal of a finite double reads back as it, and has at most 17 digits. -/
theorem toDouble_shortest (hx : x.isFinite) :
    x.shortest.toDouble = x ∧ x.shortest.coefficient < 10 ^ 17 := by
  unfold shortest
  split
  · next hzero =>
    refine ⟨?_, by norm_num⟩
    rw [Decimal.toDouble, if_pos rfl]
    exact eq_of_abs_value_eq rfl hx rfl (by rw [value_zero, hzero])
  · next hzero =>
    obtain ⟨d, length, hlength, hd, hfound⟩ := exists_decimalOfLength? hx hzero
    obtain ⟨hreads, hdigits⟩ := of_decimalOfLength? hzero hd
    rw [hfound]
    dsimp only
    split
    · next hpower =>
      refine ⟨?_, by norm_num⟩
      generalize digitCount d.coefficient - 1 = count at hpower ⊢
      rw [Decimal.toDouble_eq_nearest] at hreads ⊢
      refine Eq.trans (congrArg (nearest d.negative) ?_) hreads
      rw [Decimal.magnitude, Decimal.magnitude, hpower, cast_tenPow, Nat.cast_one, one_mul,
        add_comm, zpow_add₀ (by norm_num), zpow_natCast]
    · next hpower =>
      refine ⟨hreads, lt_of_le_of_ne
        (hdigits.trans (Nat.pow_le_pow_right (by decide) hlength)) ?_⟩
      rintro hfull
      rw [hfull] at hpower
      exact hpower (by decide)

end Search

end Double

end StyleValue
