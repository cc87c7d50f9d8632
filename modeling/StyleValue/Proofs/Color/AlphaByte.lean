import StyleValue.Proofs.Color.Bytes
import StyleValue.Proofs.Numeric.Nearest

/-!
# The byte of an alpha

An alpha between zero and one is packed to the integer nearest to 255 times it, up to a little for
the rounding of doubles. The search for the alpha of a byte begins with the fewest decimals and
tests what packing makes of them. With three decimals it need not test: these are near enough. So
the alpha of a byte is packed to that byte again.
-/

set_option autoImplicit false

namespace StyleValue

namespace Double

theorem nearest_neg (negative : Bool) (q : ℚ) : nearest negative (-q) = nearest negative q := by
  simp [nearest]

theorem ofRat_of_nonneg {q : ℚ} (h : 0 ≤ q) : ofRat q = nearest false q := by
  rw [ofRat, decide_eq_false (not_lt.2 h)]

theorem ofRat_of_neg {q : ℚ} (h : q < 0) : ofRat q = nearest true (-q) := by
  rw [nearest_neg, ofRat, decide_eq_true h]

theorem isNearest_ofRat {q : ℚ} (h : 0 ≤ q) : IsNearest false q (ofRat q) :=
  ofRat_of_nonneg h ▸ isNearest_nearest h false

structure IsUnit (x : Double) : Prop where
  finite : x.isFinite
  nonneg : 0 ≤ x.value
  le_one : x.value ≤ 1

theorem value_one : (1 : Double).value = 1 := by decide +kernel

/-- Zero and one are doubles, so what is between them stays there when it is rounded. -/
theorem isUnit_ofRat {q : ℚ} (h : 0 ≤ q) (h' : q ≤ 1) : (ofRat q).IsUnit := by
  have hnearest := isNearest_ofRat h
  have hlt : q < beyond := by
    refine lt_of_lt_of_le ?_ two_zpow_le_beyond
    exact h'.trans_lt (one_lt_zpow₀ one_lt_two (by norm_num))
  have hone := hnearest.nearest hlt 1 (by decide +kernel)
  have hzero := hnearest.nearest hlt (zero false) rfl
  rw [value_one] at hone
  rw [value_zero] at hzero
  have hsigned : signed false q = q := rfl
  rw [hsigned, abs_of_nonneg (by linarith : (0 : ℚ) ≤ 1 - q)] at hone
  rw [hsigned, zero_sub, abs_neg, abs_of_nonneg h] at hzero
  exact ⟨hnearest.finite hlt, by linarith [(abs_le.1 hzero).1],
    by linarith [(abs_le.1 hone).2]⟩

theorem abs_value_ofRat_sub_le {q : ℚ} (h : 0 ≤ q) (h' : q ≤ 1) :
    |(ofRat q).value - q| ≤ 1 / 10 ^ 9 := by
  have hq : |(q : ℝ)| ≤ 1 := by
    rw [abs_of_nonneg (by exact_mod_cast h)]
    exact_mod_cast h'
  apply Near.abs_value_sub_le
  push_cast
  exact (ofRat_near hq (by norm_num)).mono (by norm_num)

/-- A double between zero and one, rounded, is the double of the nearest decimal between them. -/
theorem exists_roundTo {x : Double} (hx : x.IsUnit) (hsign : x.isNegative = false)
    (decimals : Nat) : ∃ m : Nat,
    x.roundTo decimals = ofRat (m / 10 ^ decimals) ∧ m ≤ 10 ^ decimals ∧
      |(m : ℚ) - 10 ^ decimals * x.value| ≤ 1 / 2 := by
  set m := divideHalfEven (x.value.num.natAbs * tenPow decimals) x.value.den with hm
  have hround : x.roundTo decimals = nearest x.isNegative ((m : ℚ) / tenPow decimals) := by
    have hfinite := hx.finite
    cases x with
    | notANumber | infinite => cases hfinite
    | finite => rfl
  have hvalue : 10 ^ decimals * x.value =
      ((x.value.num.natAbs * tenPow decimals : Nat) : ℚ) / x.value.den := by
    have hnum : ((x.value.num.natAbs : Int) : ℚ) = x.value.num := by
      rw [Int.natAbs_of_nonneg (Rat.num_nonneg.2 hx.nonneg)]
    rw [Nat.cast_mul, cast_tenPow, ← Int.cast_natCast, hnum, mul_comm (x.value.num : ℚ),
      mul_div_assoc, Rat.num_div_den]
  have hclose : |(m : ℚ) - 10 ^ decimals * x.value| ≤ 1 / 2 := by
    rw [hvalue]
    exact abs_divideHalfEven_sub_le _ _ x.value.den_pos
  refine ⟨m, ?_, ?_, hclose⟩
  · rw [hround, hsign, cast_tenPow, ofRat_of_nonneg (by positivity)]
  · have hlimit : 10 ^ decimals * x.value ≤ 10 ^ decimals :=
      mul_le_of_le_one_right (by positivity) hx.le_one
    have hlt : (m : ℚ) < ((10 ^ decimals + 1 : Nat) : ℚ) := by
      push_cast
      linarith [(abs_le.1 hclose).2]
    have hlt' : m < 10 ^ decimals + 1 := by exact_mod_cast hlt
    omega

end Double

namespace Color

open Double

section

variable {x : Double} {byte : UInt8}

theorem alphaByte_eq {x : Number} (h : x.isNotANumber = .ok false) :
    alphaByte x = do return byteOf (← (← (x.clamp 0 1).mul 255).roundHalfUp) := by
  rw [alphaByte, h]
  rfl

theorem isNotANumber_of_isFinite (hx : x.isFinite) :
    (Number.double x).isNotANumber = .ok false := by
  cases x with
  | notANumber | infinite => cases hx
  | finite => rfl

theorem mul_byte_near (hx : x.IsUnit) :
    (x * 255).isFinite ∧ |(x * 255).value - 255 * x.value| ≤ 1 / 10 ^ 5 := by
  have hreal : |x.real| ≤ 4001 := by
    have hvalue : |x.value| ≤ 4001 := by
      rw [abs_of_nonneg hx.nonneg]
      linarith [hx.le_one]
    unfold Double.real
    exact_mod_cast hvalue
  obtain ⟨y, hy, hnear⟩ := exists_mul_byte hx.finite hreal
  obtain rfl : x * 255 = y := by
    have hmul : (Number.double x).mul 255 = .ok (.double (x * 255)) := rfl
    exact Number.double.inj (Except.ok.inj (hmul.symm.trans hy))
  refine ⟨hnear.finite, Near.abs_value_sub_le ?_⟩
  push_cast
  exact hnear

theorem rounded_near (hx : x.IsUnit) : (x * 255 + 0.5).isFinite ∧
    |(⌊(x * 255 + 0.5).value⌋ : ℚ) - 255 * x.value| ≤ 1 / 2 + 1 / 10 ^ 4 := by
  obtain ⟨hfinite, hnear⟩ := mul_byte_near hx
  have hsmall : |(x * 255).value| ≤ 299 := by
    have := abs_sub_abs_le_abs_sub (x * 255).value (255 * x.value)
    rw [abs_of_nonneg (by linarith [hx.nonneg] : 0 ≤ 255 * x.value)] at this
    linarith [hx.le_one]
  obtain ⟨hsum, hround⟩ := floor_add_half_near hfinite hsmall
  exact ⟨hsum, ((abs_sub_le _ _ _).trans (add_le_add hround hnear)).trans (by norm_num)⟩

theorem mem_byte_of_isUnit (hx : x.IsUnit) :
    0 ≤ ⌊(x * 255 + 0.5).value⌋ ∧ ⌊(x * 255 + 0.5).value⌋ ≤ 255 :=
  mem_byte_of_near ((rounded_near hx).2.trans_lt (by norm_num)) (by linarith [hx.nonneg])
    (by linarith [hx.le_one])

theorem alphaByte_of_isUnit (hx : x.IsUnit) :
    alphaByte (.double x) = .ok (byteOf ⌊(x * 255 + 0.5).value⌋) := by
  have hnumber := isNotANumber_of_isFinite hx.finite
  have hclamp : (Number.double x).clamp 0 1 = .double x := by
    have hlow := (Number.le_iff (x := 0) (y := .double x) trivial hx.finite).2 hx.nonneg
    have hone : x.value ≤ ((1 : Nat) : Int) := by exact_mod_cast hx.le_one
    have hhigh := (Number.le_iff (x := .double x) (y := 1) hx.finite trivial).2 hone
    rw [Number.clamp, hlow, hhigh, Bool.and_self, if_pos rfl]
  have hfloor := Double.floor_of_finite (rounded_near hx).1
  rw [alphaByte_eq hnumber, hclamp]
  show (do return byteOf (← (x * 255 + 0.5).floor)) = _
  rw [hfloor]
  rfl

/-- The search for an alpha tests what packing makes of it. -/
theorem alphaByte_eq_ok_iff (hx : x.IsUnit) :
    alphaByte (.double x) = .ok byte ↔ packsTo x byte := by
  obtain ⟨hlow, hhigh⟩ := mem_byte_of_isUnit hx
  rw [alphaByte_of_isUnit hx, Except.ok.injEq, packsTo, beq_iff_eq, ← UInt8.toNat_inj,
    ← Int.natCast_inj, toNat_byteOf hlow hhigh]
  rfl

theorem abs_byte_sub_le (hx : x.IsUnit) (h : alphaByte (.double x) = .ok byte) :
    |(byte.toNat : ℚ) - 255 * x.value| ≤ 1 / 2 + 1 / 10 ^ 4 := by
  obtain ⟨hlow, hhigh⟩ := mem_byte_of_isUnit hx
  rw [alphaByte_of_isUnit hx, Except.ok.injEq] at h
  have hbyte : (byte.toNat : ℚ) = (⌊(x * 255 + 0.5).value⌋ : ℚ) := by
    have hfloor := toNat_byteOf hlow hhigh
    rw [h] at hfloor
    exact_mod_cast hfloor
  rw [hbyte]
  exact (rounded_near hx).2

/-- Integers less than one apart are equal. -/
theorem eq_of_abs_sub_lt_one {m n : Int} (h : |(m : ℚ) - n| < 1) : m = n := by
  have h' : |m - n| < 1 := by exact_mod_cast h
  exact sub_eq_zero.1 (Int.abs_lt_one_iff.1 h')

/-- An alpha that is off by well less than a half has the byte. -/
theorem alphaByte_of_near (hx : x.IsUnit) (h : |(byte.toNat : ℚ) - 255 * x.value| ≤ 1 / 4) :
    alphaByte (.double x) = .ok byte := by
  obtain ⟨hlow, hhigh⟩ := mem_byte_of_isUnit hx
  have hround := (rounded_near hx).2
  have hbyte : ⌊(x * 255 + 0.5).value⌋ = (byte.toNat : Int) := by
    apply eq_of_abs_sub_lt_one
    rw [abs_sub_comm] at h
    rw [Int.cast_natCast]
    linarith [abs_sub_le (⌊(x * 255 + 0.5).value⌋ : ℚ) (255 * x.value) byte.toNat]
  rw [alphaByte_of_isUnit hx, Except.ok.injEq, ← UInt8.toNat_inj, ← Int.natCast_inj,
    toNat_byteOf hlow hhigh, hbyte]

end

def byteFraction (byte : UInt8) : Double := ofRat ((byte.toNat : ℚ) / 255)

theorem byteFraction_bounds (byte : UInt8) :
    (0 : ℚ) ≤ byte.toNat / 255 ∧ (byte.toNat : ℚ) / 255 ≤ 1 := by
  have hbyte : (byte.toNat : ℚ) ≤ 255 := by exact_mod_cast Nat.le_of_lt_succ byte.toNat_lt
  exact ⟨by positivity, (div_le_one (by norm_num)).2 hbyte⟩

theorem isUnit_byteFraction (byte : UInt8) : (byteFraction byte).IsUnit :=
  isUnit_ofRat (byteFraction_bounds byte).1 (byteFraction_bounds byte).2

theorem abs_value_byteFraction_sub_le (byte : UInt8) :
    |(byteFraction byte).value - byte.toNat / 255| ≤ 1 / 10 ^ 9 :=
  abs_value_ofRat_sub_le (byteFraction_bounds byte).1 (byteFraction_bounds byte).2

theorem alphaByte_byteFraction (byte : UInt8) :
    alphaByte (.double (byteFraction byte)) = .ok byte := by
  apply alphaByte_of_near (isUnit_byteFraction byte)
  obtain ⟨hlow, hhigh⟩ := abs_le.1 (abs_value_byteFraction_sub_le byte)
  rw [abs_le]
  constructor <;> linarith

theorem exists_roundTo_byteFraction (byte : UInt8) (decimals : Nat) : ∃ m : Nat,
    (byteFraction byte).roundTo decimals = ofRat (m / 10 ^ decimals) ∧ m ≤ 10 ^ decimals ∧
      |(m : ℚ) - 10 ^ decimals * (byteFraction byte).value| ≤ 1 / 2 :=
  exists_roundTo (isUnit_byteFraction byte) (isNearest_ofRat (byteFraction_bounds byte).1).sign _

/-- The search ends with some decimals, and with at most two only if they pack to the byte. -/
theorem unpackAlpha_cases (byte : UInt8) :
    (∃ p ≤ 2, unpackAlpha byte = (byteFraction byte).roundTo p ∧ packsTo (unpackAlpha byte) byte) ∨
      unpackAlpha byte = (byteFraction byte).roundTo 3 ∧
        ¬ packsTo ((byteFraction byte).roundTo 2) byte := by
  cases hsearch : [0, 1, 2].find? fun p => packsTo ((byteFraction byte).roundTo p) byte with
  | some p =>
    have hunpack : unpackAlpha byte = (byteFraction byte).roundTo p := by
      rw [unpackAlpha, ← byteFraction, hsearch]
    have hle : p ≤ 2 := by
      have hmem := List.mem_of_find?_eq_some hsearch
      simp only [List.mem_cons, List.not_mem_nil, or_false] at hmem
      omega
    have hpacks : packsTo ((byteFraction byte).roundTo p) byte :=
      List.find?_some (p := fun p => packsTo ((byteFraction byte).roundTo p) byte) hsearch
    exact .inl ⟨p, hle, hunpack, hunpack ▸ hpacks⟩
  | none =>
    have hunpack : unpackAlpha byte = (byteFraction byte).roundTo 3 := by
      rw [unpackAlpha, ← byteFraction, hsearch]
    exact .inr ⟨hunpack, List.find?_eq_none.1 hsearch 2 (by simp)⟩

theorem isUnit_roundTo_byteFraction (byte : UInt8) (decimals : Nat) :
    ((byteFraction byte).roundTo decimals).IsUnit := by
  obtain ⟨m, hround, hle, -⟩ := exists_roundTo_byteFraction byte decimals
  have hle' : (m : ℚ) ≤ 10 ^ decimals := by exact_mod_cast hle
  rw [hround]
  exact isUnit_ofRat (by positivity) ((div_le_one (by positivity)).2 hle')

theorem isUnit_unpackAlpha (byte : UInt8) : (unpackAlpha byte).IsUnit := by
  obtain ⟨p, -, hunpack, -⟩ | ⟨hunpack, -⟩ := unpackAlpha_cases byte
  · exact hunpack ▸ isUnit_roundTo_byteFraction byte p
  · exact hunpack ▸ isUnit_roundTo_byteFraction byte 3

/-- With three decimals the fraction of a byte is near enough to it. -/
theorem alphaByte_roundTo_three (byte : UInt8) :
    alphaByte (.double ((byteFraction byte).roundTo 3)) = .ok byte := by
  apply alphaByte_of_near (isUnit_roundTo_byteFraction byte 3)
  obtain ⟨m, hround, hle, hnear⟩ := exists_roundTo_byteFraction byte 3
  have hle' : (m : ℚ) ≤ 10 ^ 3 := by exact_mod_cast hle
  have hvalue := abs_value_ofRat_sub_le (q := m / 10 ^ 3) (by positivity)
    ((div_le_one (by positivity)).2 hle')
  obtain ⟨hlow, hhigh⟩ := abs_le.1 hvalue
  obtain ⟨hlow', hhigh'⟩ := abs_le.1 hnear
  obtain ⟨hlow'', hhigh''⟩ := abs_le.1 (abs_value_byteFraction_sub_le byte)
  rw [hround, abs_le]
  constructor <;> linarith

/-- The alpha of a byte is packed to the byte. -/
theorem alphaByte_unpackAlpha (byte : UInt8) :
    alphaByte (.double (unpackAlpha byte)) = .ok byte := by
  obtain ⟨p, -, -, hpacks⟩ | ⟨hunpack, -⟩ := unpackAlpha_cases byte
  · exact (alphaByte_eq_ok_iff (isUnit_unpackAlpha byte)).2 hpacks
  · rw [hunpack, alphaByte_roundTo_three]

/-- Only the greatest byte has an alpha of one. -/
theorem unpackAlpha_lt_one {byte : UInt8} (h : byte ≠ 255) :
    (Number.double (unpackAlpha byte)).lt 1 := by
  have hunit := isUnit_unpackAlpha byte
  have hclose := abs_byte_sub_le hunit (alphaByte_unpackAlpha byte)
  refine (Number.lt_iff (x := .double (unpackAlpha byte)) (y := 1) hunit.finite trivial).2 ?_
  refine lt_of_le_of_ne hunit.le_one fun hone => h (UInt8.toNat_inj.1 ?_)
  have hvalue : (unpackAlpha byte).value = 1 := hone
  have hsame : |((byte.toNat : Int) : ℚ) - (255 : Int)| < 1 := by
    rw [hvalue] at hclose
    push_cast
    linarith
  exact_mod_cast eq_of_abs_sub_lt_one hsame

end Color

end StyleValue
