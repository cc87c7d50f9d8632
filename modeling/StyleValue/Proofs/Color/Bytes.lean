import StyleValue.Proofs.Color.Detour

/-!
# Bytes of channels

A channel is cut down to the range of a byte, and then its fraction is dropped or it is rounded to
the nearest integer. So a channel that is off by little has the same byte if it is rounded, except
near a half.
-/

set_option autoImplicit false

namespace StyleValue

namespace Color

def limited (q : ℚ) : ℚ := max 0 (min 255 q)

theorem limited_nonneg (q : ℚ) : 0 ≤ limited q := le_max_left _ _

theorem limited_le (q : ℚ) : limited q ≤ 255 := max_le (by norm_num) (min_le_left _ _)

theorem abs_limited_sub_le (p q : ℚ) : |limited p - limited q| ≤ |p - q| := by
  unfold limited
  rw [max_comm 0, max_comm 0]
  apply (abs_max_sub_max_le_abs _ _ _).trans
  have h := abs_min_sub_min_le_max 255 p 255 q
  simpa using h

theorem limited_natCast {n : Nat} (h : n ≤ 255) : limited n = n := by
  have hn : (n : ℚ) ≤ 255 := by exact_mod_cast h
  rw [limited, min_eq_right hn, max_eq_right n.cast_nonneg]

theorem clamp_byte {x : Number} (hx : x.Finite) :
    (x.clamp 0 255).Finite ∧ (x.clamp 0 255).value = limited x.value :=
  Number.clamp_of_finite 0 255 hx trivial trivial (by decide)

theorem toNat_byteOf {n : Int} (h : 0 ≤ n) (h' : n ≤ 255) : ((byteOf n).toNat : Int) = n := by
  have hsmall : n.toNat < 2 ^ 8 := by omega
  rw [byteOf, UInt8.toNat_ofNat', Nat.mod_eq_of_lt hsmall, Int.toNat_of_nonneg h]

/-- The byte of a channel is the channel without its fraction. -/
theorem exists_channelByte {x : Number} {limit : ℚ} (hx : x.Within limit)
    (hlimit : limit < 2 ^ (1023 : Nat)) :
    ∃ byte, channelByte x = .ok byte ∧ (byte.toNat : Int) = ⌊limited x.value⌋ := by
  obtain ⟨hfinite, hvalue⟩ := clamp_byte hx.finite
  have hnonneg := limited_nonneg x.value
  refine ⟨byteOf ⌊limited x.value⌋, ?_, toNat_byteOf (Int.floor_nonneg.2 hnonneg) ?_⟩
  · rw [channelByte, Number.isNotANumber_of_within hx hlimit]
    show (do return byteOf (← (x.clamp 0 255).truncate)) = _
    rw [Number.truncate_of_nonneg hfinite (by rwa [hvalue]), hvalue]
    rfl
  · have h : (⌊limited x.value⌋ : ℚ) ≤ 255 := (Int.floor_le _).trans (limited_le _)
    exact_mod_cast h

/-- The floor of a double, not too large, that one half was added to. -/
theorem floor_add_half_near {d : Double} (hd : d.isFinite) (h : |d.value| ≤ 299) :
    (d + 0.5).isFinite ∧ |(⌊(d + 0.5).value⌋ : ℚ) - d.value| ≤ 1 / 2 + 1 / 10 ^ 9 := by
  have hhalf : (0.5 : Double).Near (1 / 2) 0 := by
    have hvalue : (0.5 : Double).value = 1 / 2 := by decide +kernel
    have h := Double.near_self (x := 0.5) (by decide +kernel)
    rw [Double.real, hvalue] at h
    norm_num at h ⊢
    exact h
  have hreal : |d.real| ≤ 299 := by
    unfold Double.real
    exact_mod_cast h
  have hsum : (d + 0.5).Near ((d.value + 1 / 2 : ℚ) : ℝ) ((1 / 10 ^ 9 : ℚ) : ℝ) := by
    push_cast
    apply ((Double.near_self hd).add 300 hhalf _ (by norm_num)).mono (by norm_num)
    norm_num
    linarith
  obtain ⟨hclose, hclose'⟩ := abs_le.1 hsum.abs_value_sub_le
  have hfloor := Int.floor_le (d + 0.5).value
  have hfloor' := Int.lt_floor_add_one (d + 0.5).value
  refine ⟨hsum.finite, ?_⟩
  rw [abs_le]
  constructor <;> linarith

theorem exists_roundHalfUp_near {x : Number} (hx : x.Finite) (h : |x.value| ≤ 298) : ∃ n : Int,
    x.roundHalfUp = .ok n ∧ |(n : ℚ) - x.value| ≤ 1 / 2 + 1 / 10 ^ 8 := by
  obtain ⟨d, hd, hnear⟩ := Number.exists_toDouble hx (h.trans (by norm_num))
  have hclose : |d.value - x.value| ≤ 1 / 10 ^ 9 := by
    apply Double.Near.abs_value_sub_le
    push_cast
    exact hnear
  have hsmall : |d.value| ≤ 299 := by
    have := abs_sub_abs_le_abs_sub d.value x.value
    linarith
  obtain ⟨hfinite, hround⟩ := floor_add_half_near hnear.finite hsmall
  refine ⟨⌊(d + 0.5).value⌋, ?_, ?_⟩
  · have hadd : x.add 0.5 = .ok (.double (d + 0.5)) := Number.combine_double hd _
    rw [Number.roundHalfUp, hadd]
    exact Double.floor_of_finite hfinite
  · exact ((abs_sub_le _ _ _).trans (add_le_add hround hclose)).trans (by norm_num)

/-- An integer near to a number within the range of a byte is within it. -/
theorem mem_byte_of_near {n : Int} {q : ℚ} (h : |(n : ℚ) - q| < 1) (hlow : 0 ≤ q)
    (hhigh : q ≤ 255) : 0 ≤ n ∧ n ≤ 255 := by
  obtain ⟨hbelow, habove⟩ := abs_lt.1 h
  have hlow' : (-1 : ℚ) < n := by linarith
  have hhigh' : (n : ℚ) < 256 := by linarith
  have hlow'' : -1 < n := by exact_mod_cast hlow'
  have hhigh'' : n < 256 := by exact_mod_cast hhigh'
  omega

/-- A number within the range of a byte is rounded to the nearest integer. -/
theorem exists_roundHalfUp {x : Number} (hx : x.Finite) : ∃ n : Int,
    (x.clamp 0 255).roundHalfUp = .ok n ∧ 0 ≤ n ∧ n ≤ 255 ∧
      |(n : ℚ) - limited x.value| ≤ 1 / 2 + 1 / 10 ^ 8 := by
  obtain ⟨hfinite, hvalue⟩ := clamp_byte hx
  have hlow := limited_nonneg x.value
  have hhigh := limited_le x.value
  obtain ⟨n, hn, hround⟩ := exists_roundHalfUp_near hfinite (by
    rw [hvalue, abs_of_nonneg hlow]
    linarith)
  rw [hvalue] at hround
  obtain ⟨hnonneg, hle⟩ := mem_byte_of_near (hround.trans_lt (by norm_num)) hlow hhigh
  exact ⟨n, hn, hnonneg, hle, hround⟩

theorem exists_toDouble_byte : ∃ c, Number.toDouble 255 = .ok c ∧ c.Near 255 (1 / 10 ^ 9) := by
  have hvalue : ((Number.value 255 : ℚ) : ℝ) = 255 := by simp [Number.value, OfNat.ofNat]
  obtain ⟨c, hc, hnear⟩ := Number.exists_toDouble (x := 255) trivial (by decide)
  exact ⟨c, hc, hvalue ▸ hnear⟩

/-- A channel between zero and one as one of a byte. -/
theorem exists_mul_byte {d : Double} (hd : d.isFinite) (h : |d.real| ≤ 4001) :
    ∃ x, (Number.double d).mul 255 = .ok (.double x) ∧ x.Near (255 * d.real) (1 / 10 ^ 5) := by
  obtain ⟨c, hc, hbyte⟩ := exists_toDouble_byte
  have hc' := hbyte.error
  refine ⟨d * c, ?_, ?_⟩
  · show (do return Number.double ((← Except.ok d) * (← Number.toDouble 255))) = _
    rw [hc]
    rfl
  · have hproduct : |d.real * c.real| ≤ 1100000 := by
      rw [abs_mul]
      calc |d.real| * |c.real| ≤ 4001 * 256 := by
            gcongr
            have hreal := hbyte.abs_real_le
            norm_num at hreal
            linarith
        _ ≤ 1100000 := by norm_num
    have hmoved : |d.real * c.real - 255 * d.real| ≤ 4001 * (1 / 10 ^ 9) := by
      rw [mul_comm 255, ← mul_sub, abs_mul]
      exact mul_le_mul h hc' (abs_nonneg _) (by norm_num)
    exact ((Double.mul_near hd hbyte.finite hproduct (by norm_num)).trans hmoved).mono
      (by norm_num)

theorem exists_unitByte {w : Number} {q : ℚ} (hw : w.Near q (12 / 10 ^ 5)) (hq : |q| ≤ 4000) :
    ∃ n : Int, unitByte w = .ok (.integer n) ∧ 0 ≤ n ∧ n ≤ 255 ∧
      |(n : ℚ) - limited (255 * q)| ≤ 1 / 2 + 1 / 32 := by
  obtain ⟨d, rfl, hd⟩ := hw
  have hlimit : |d.real| ≤ 4001 := by
    have hq' : |(q : ℝ)| ≤ 4000 := by exact_mod_cast hq
    have hreal := hd.abs_real_le
    norm_num at hreal
    linarith
  have hnumber : (Number.double d).isNotANumber = .ok false := by
    have hfinite := hd.finite
    cases d with
    | notANumber | infinite => cases hfinite
    | finite => rfl
  obtain ⟨x, hmul, hx⟩ := exists_mul_byte hd.finite hlimit
  have hmoved : |255 * d.real - 255 * q| ≤ 255 * (12 / 10 ^ 5) := by
    rw [← mul_sub, abs_mul, abs_of_pos (by norm_num : (0 : ℝ) < 255)]
    exact mul_le_mul_of_nonneg_left hd.error (by norm_num)
  have hnear : x.Near ((255 * q : ℚ) : ℝ) ((31 / 1000 : ℚ) : ℝ) := by
    push_cast
    exact (hx.trans hmoved).mono (by norm_num)
  obtain ⟨n, hn, hlow, hhigh, hround⟩ := exists_roundHalfUp (x := .double x) hnear.finite
  refine ⟨n, ?_, hlow, hhigh, ?_⟩
  · rw [unitByte, hnumber]
    show (do return Number.integer (← ((← (Number.double d).mul 255).clamp 0 255).roundHalfUp)) = _
    rw [hmul]
    show (do return Number.integer (← (Number.clamp _ 0 255).roundHalfUp)) = _
    rw [hn]
    rfl
  · have hlimited := (abs_limited_sub_le x.value (255 * q)).trans hnear.abs_value_sub_le
    calc |(n : ℚ) - limited (255 * q)| ≤ (1 / 2 + 1 / 10 ^ 8) + 31 / 1000 :=
          (abs_sub_le _ _ _).trans (add_le_add hround hlimited)
      _ ≤ 1 / 2 + 1 / 32 := by norm_num

theorem exists_div_double {x : Number} (hx : x.Within 1000000) :
    ∃ u, x.div 255 = .ok (.double u) ∧ u.Near ((x.value / 255 : ℚ) : ℝ) (1 / 10 ^ 7) := by
  have hlimit : |(x.value : ℝ)| ≤ 1000000 := by exact_mod_cast hx.abs_value_le
  cases x with
  | integer m =>
    have hquotient : |((m / (255 : Int) : ℚ) : ℝ)| ≤ 4000 := by
      have hm : |(m : ℝ)| ≤ 1000000 := by simpa [Number.value] using hlimit
      push_cast
      rw [abs_div, abs_of_pos (by norm_num : (0 : ℝ) < 255), div_le_iff₀ (by norm_num)]
      linarith
    have hnear : (Double.nearest (decide (m < 0) != decide ((255 : Int) < 0))
        (m / (255 : Int) : ℚ)).Near ((m / (255 : Int) : ℚ) : ℝ) ((4000 + 1) / 2 ^ 53) := by
      apply Double.nearest_near hquotient (by norm_num)
      by_cases hm : m < 0
      · have hm' : (m : ℚ) ≤ 0 := by exact_mod_cast hm.le
        simpa [hm] using div_nonpos_of_nonpos_of_nonneg hm' (by norm_num)
      · have hm' : (0 : ℚ) ≤ m := by exact_mod_cast not_lt.1 hm
        simpa [hm] using div_nonneg hm' (by norm_num)
    exact ⟨_, if_pos hnear.finite, hnear.mono (by norm_num)⟩
  | double d =>
    have hd : |d.real| ≤ 1000000 := hlimit
    obtain ⟨c, hc, hbyte⟩ := exists_toDouble_byte
    obtain ⟨hlow, hhigh⟩ := abs_le.1 hbyte.error
    norm_num at hlow hhigh
    have hc0 : 0 < c.real := by linarith
    have hquotient : |d.real / c.real| ≤ 4000 := by
      rw [abs_div, abs_of_pos hc0, div_le_iff₀ hc0]
      linarith
    have hmoved : |d.real / c.real - ((d.value / 255 : ℚ) : ℝ)| ≤ 5 / 10 ^ 8 := by
      have hsplit : d.real / c.real - ((d.value / 255 : ℚ) : ℝ) =
          d.real * (255 - c.real) / (255 * c.real) := by
        push_cast
        show d.real / c.real - d.real / 255 = _
        field_simp
      have herror : |255 - c.real| ≤ 1 / 10 ^ 9 := abs_sub_comm c.real 255 ▸ hbyte.error
      rw [hsplit, abs_div, abs_mul, abs_of_pos (by linarith : 0 < 255 * c.real),
        div_le_iff₀ (by linarith)]
      calc |d.real| * |255 - c.real| ≤ 1000000 * (1 / 10 ^ 9) := by gcongr
        _ ≤ 5 / 10 ^ 8 * (255 * c.real) := by linarith
    refine ⟨d / c, ?_, ((Double.div_near hx.1 hbyte.finite hc0.ne' hquotient (by norm_num)).trans
      hmoved).mono (by norm_num)⟩
    show (do return Number.double ((← Except.ok d) / (← Number.toDouble 255))) = _
    rw [hc]
    rfl

structure Scaled (x u : Number) : Prop where
  packed : x.Within 1100000
  unit : u.DoubleWithin 4000
  close : |255 * u.value - x.value| ≤ 1 / 10 ^ 4

theorem exists_scaled_of_div {x : Number} (hx : x.Within 1000000) :
    ∃ u, x.div 255 = .ok u ∧ Scaled x u := by
  obtain ⟨u, hu, hnear⟩ := exists_div_double hx
  have hlimit : |((x.value / 255 : ℚ) : ℝ)| ≤ 3999 := by
    have hx' : |(x.value : ℝ)| ≤ 1000000 := by exact_mod_cast hx.abs_value_le
    push_cast
    rw [abs_div, abs_of_pos (by norm_num : (0 : ℝ) < 255), div_le_iff₀ (by norm_num)]
    linarith
  have hnumber : (Number.double u).Near ((x.value / 255 : ℚ) : ℝ) (1 / 10 ^ 7) := ⟨u, rfl, hnear⟩
  refine ⟨.double u, hu, hx.mono (by norm_num), hnumber.doubleWithin hlimit (by norm_num), ?_⟩
  have hclose : u.Near ((x.value / 255 : ℚ) : ℝ) ((1 / 10 ^ 7 : ℚ) : ℝ) := by
    push_cast at hnear ⊢
    exact hnear
  have herror := hclose.abs_value_sub_le
  have hsplit : 255 * u.value - x.value = 255 * (u.value - x.value / 255) := by ring
  show |255 * u.value - x.value| ≤ _
  rw [hsplit, abs_mul, abs_of_pos (by norm_num : (0 : ℚ) < 255)]
  linarith

theorem exists_scaled_of_mul {u : Number} (hu : u.DoubleWithin 4000) :
    ∃ x, u.mul 255 = .ok x ∧ Scaled x u := by
  obtain ⟨d, rfl, hd, hlimit⟩ := hu
  obtain ⟨x, hx, hnear⟩ := exists_mul_byte hd (hlimit.trans (by norm_num))
  have hclose : x.Near ((255 * d.value : ℚ) : ℝ) ((1 / 10 ^ 4 : ℚ) : ℝ) := by
    push_cast
    exact hnear.mono (by norm_num)
  have herror := hclose.abs_value_sub_le
  have hvalue : |d.value| ≤ 4000 := by
    unfold Double.real at hlimit
    exact_mod_cast hlimit
  refine ⟨.double x, hx, ⟨hclose.finite, ?_⟩, ⟨d, rfl, hd, hlimit⟩, ?_⟩
  · have hmoved := abs_sub_abs_le_abs_sub x.value (255 * d.value)
    rw [abs_mul, abs_of_pos (by norm_num : (0 : ℚ) < 255)] at hmoved
    linarith
  · rw [abs_sub_comm]
    exact herror

structure Rounds (x : ℚ) (byte rounded : UInt8) : Prop where
  floor : (byte.toNat : Int) = ⌊limited x⌋
  close : |(rounded.toNat : ℚ) - limited x| ≤ 9 / 16

/-- A channel whose fraction is well below a half has one byte. -/
theorem Rounds.eq_of_fract_lt {x : ℚ} {byte rounded : UInt8} (h : Rounds x byte rounded)
    (hfract : Int.fract (limited x) < 7 / 16) : rounded = byte := by
  have hsplit := Int.floor_add_fract (limited x)
  have hnonneg := Int.fract_nonneg (limited x)
  rw [← h.floor] at hsplit
  obtain ⟨hlow, hhigh⟩ := abs_le.1 h.close
  push_cast at hsplit
  have hmin : (byte.toNat : ℚ) < rounded.toNat + 1 := by linarith
  have hmax : (rounded.toNat : ℚ) < byte.toNat + 1 := by linarith
  have hmin' : byte.toNat < rounded.toNat + 1 := by exact_mod_cast hmin
  have hmax' : rounded.toNat < byte.toNat + 1 := by exact_mod_cast hmax
  exact UInt8.toNat_inj.1 (by omega)

/-- The bytes of a channel, and of the channel that it became by conversions. -/
theorem Scaled.exists_bytes {x u w : Number} (h : Scaled x u) (hw : w.Near u.value (12 / 10 ^ 5)) :
    ∃ byte n rounded, channelByte x = .ok byte ∧ unitByte w = .ok n ∧
      channelByte n = .ok rounded ∧ Rounds x.value byte rounded := by
  obtain ⟨byte, hbyte, hfloor⟩ := exists_channelByte h.packed (by
    calc (1100000 : ℚ) < 2 ^ (21 : Nat) := by norm_num
      _ ≤ 2 ^ (1023 : Nat) := pow_le_pow_right₀ one_le_two (by decide))
  obtain ⟨n, hn, hlow, hhigh, hround⟩ := exists_unitByte hw (by exact_mod_cast h.unit.abs_value_le)
  have hsmall : limited n = n := by
    lift n to Nat using hlow
    exact limited_natCast (by omega)
  have hwithin : (Number.integer n).Within 255 := by
    show |(n : ℚ)| ≤ 255
    rw [← hsmall, abs_of_nonneg (limited_nonneg _)]
    exact limited_le _
  obtain ⟨rounded, hrounded, hfloor'⟩ := exists_channelByte hwithin (Number.lt_limit (by norm_num))
  refine ⟨byte, .integer n, rounded, hbyte, hn, hrounded, hfloor, ?_⟩
  have hvalue : (rounded.toNat : ℚ) = n := by
    rw [show (Number.integer n).value = n from rfl, hsmall, Int.floor_intCast] at hfloor'
    exact_mod_cast hfloor'
  rw [hvalue]
  calc |(n : ℚ) - limited x.value| ≤ (1 / 2 + 1 / 32) + 1 / 10 ^ 4 :=
        (abs_sub_le _ _ _).trans (add_le_add hround ((abs_limited_sub_le _ _).trans h.close))
    _ ≤ 9 / 16 := by norm_num

end Color

end StyleValue
