import StyleValue.Color.Space
import StyleValue.Proofs.Color.Formula
import StyleValue.Proofs.Color.Gamma

/-!
# The detour by XYZ

Channels of sRGB that go to XYZ and back are what they were, up to an error. The matrices are
inverse up to the last digits of their entries, each product of a row adds an error of a few units
of the last digit, and the transfer functions add theirs.
-/

set_option autoImplicit false

namespace StyleValue

theorem Triple.mapM_eq_ok {α β : Type} {f : α → Computed β} {t : Triple α} {x y z : β}
    (hx : f t.first = .ok x) (hy : f t.second = .ok y) (hz : f t.third = .ok z) :
    t.mapM f = .ok ⟨x, y, z⟩ := by
  rw [mapM, hx, hy, hz]
  rfl

noncomputable def Triple.exactDot (row : Triple Number) (column : Triple ℝ) : ℝ :=
  row.first.value * column.first + row.second.value * column.second +
    row.third.value * column.third

def Triple.weight (row : Triple Number) : ℚ :=
  |row.first.value| + |row.second.value| + |row.third.value|

def Triple.isDoubles (row : Triple Number) : Bool :=
  match row with
  | ⟨.double x, .double y, .double z⟩ => x.isFinite && y.isFinite && z.isFinite
  | _ => false

namespace Matrix

noncomputable def exact (m : Matrix) (column : Triple ℝ) : Triple ℝ :=
  ⟨m.first.exactDot column, m.second.exactDot column, m.third.exactDot column⟩

def productRow (row : Triple Number) (m : Matrix) : Triple ℚ :=
  ⟨row.first.value * m.first.first.value + row.second.value * m.second.first.value +
      row.third.value * m.third.first.value,
    row.first.value * m.first.second.value + row.second.value * m.second.second.value +
      row.third.value * m.third.second.value,
    row.first.value * m.first.third.value + row.second.value * m.second.third.value +
      row.third.value * m.third.third.value⟩

structure Moderate (m : Matrix) (weight : ℚ) : Prop where
  doubles : m.first.isDoubles ∧ m.second.isDoubles ∧ m.third.isDoubles
  weight : m.first.weight ≤ weight ∧ m.second.weight ≤ weight ∧ m.third.weight ≤ weight

end Matrix

def Number.DoubleWithin (limit : ℝ) (n : Number) : Prop :=
  ∃ x, n = .double x ∧ x.isFinite ∧ |x.real| ≤ limit

noncomputable def Triple.real (t : Triple Number) : Triple ℝ :=
  ⟨t.first.value, t.second.value, t.third.value⟩

def Number.Near (n : Number) (r error : ℝ) : Prop := ∃ x, n = .double x ∧ x.Near r error

structure Triple.Near (t : Triple Number) (r : Triple ℝ) (error : ℝ) : Prop where
  first : t.first.Near r.first error
  second : t.second.Near r.second error
  third : t.third.Near r.third error

theorem Number.Near.doubleWithin {n : Number} {r error bound limit : ℝ} (h : n.Near r error)
    (hr : |r| ≤ bound) (hlimit : bound + error ≤ limit) : n.DoubleWithin limit := by
  obtain ⟨x, rfl, hx⟩ := h
  exact ⟨x, rfl, hx.finite, by linarith [hx.abs_real_le]⟩

theorem Number.Near.error {n : Number} {r error : ℝ} (h : n.Near r error) :
    |n.value - r| ≤ error := by
  obtain ⟨x, rfl, hx⟩ := h
  exact hx.error

theorem Number.DoubleWithin.abs_value_le {n : Number} {limit : ℝ} (h : n.DoubleWithin limit) :
    |(n.value : ℝ)| ≤ limit := by
  obtain ⟨x, rfl, -, hx⟩ := h
  exact hx

namespace Matrix

theorem dot_near {row v : Triple Number} {weight : ℚ} {bound : ℝ} (hrow : row.isDoubles)
    (hweight : row.weight ≤ weight) (hv : v.All (Number.DoubleWithin bound))
    (hlimit : weight * bound ≤ 10 ^ 12) : ∃ s, dot row v = .ok s ∧
      s.Near (row.exactDot v.real) ((3 * weight * bound + 13) / 2 ^ 53) := by
  obtain ⟨v₁, v₂, v₃⟩ := v
  obtain ⟨⟨x, rfl, hx, hx'⟩, ⟨y, rfl, hy, hy'⟩, ⟨z, rfl, hz, hz'⟩⟩ := hv
  unfold Triple.isDoubles at hrow
  split at hrow
  · next a b c =>
    obtain ⟨hab, hc⟩ := Bool.and_eq_true_iff.1 hrow
    obtain ⟨ha, hb⟩ := Bool.and_eq_true_iff.1 hab
    have hbound : 0 ≤ bound := (abs_nonneg _).trans hx'
    have hsum : |a.real| * bound + |b.real| * bound + |c.real| * bound ≤ weight * bound := by
      rw [← add_mul, ← add_mul]
      apply mul_le_mul_of_nonneg_right _ hbound
      have hcast : (Triple.weight ⟨.double a, .double b, .double c⟩ : ℝ) =
          |a.real| + |b.real| + |c.real| := by
        simp [Triple.weight, Number.value, Double.real]
      rw [← hcast]
      exact_mod_cast hweight
    have hfirst : |a.real * x.real| ≤ |a.real| * bound := by rw [abs_mul]; gcongr
    have hsecond : |b.real * y.real| ≤ |b.real| * bound := by rw [abs_mul]; gcongr
    have hthird : |c.real * z.real| ≤ |c.real| * bound := by rw [abs_mul]; gcongr
    have ha0 := mul_nonneg (abs_nonneg a.real) hbound
    have hb0 := mul_nonneg (abs_nonneg b.real) hbound
    have hc0 := mul_nonneg (abs_nonneg c.real) hbound
    have hax := Double.mul_near ha hx hfirst (by linarith)
    have hby := Double.mul_near hb hy hsecond (by linarith)
    have hcz := Double.mul_near hc hz hthird (by linarith)
    have hleft := hax.add (weight * bound + 2) hby (by linarith) (by linarith)
    have htwo := abs_add_le (a.real * x.real) (b.real * y.real)
    have hall := hleft.add (weight * bound + 6) hcz (by linarith) (by linarith)
    refine ⟨_, rfl, _, rfl, ?_⟩
    apply hall.mono
    norm_num
    linarith
  · cases hrow

/-- A matrix applied to doubles, with an error of some units of the last digit. -/
theorem multiply_near {m : Matrix} {v : Triple Number} {weight : ℚ} {bound : ℝ}
    (hm : m.Moderate weight) (hv : v.All (Number.DoubleWithin bound))
    (hlimit : weight * bound ≤ 10 ^ 12) : ∃ t, m.multiply v = .ok t ∧
      t.Near (m.exact v.real) ((3 * weight * bound + 13) / 2 ^ 53) := by
  obtain ⟨s, hs, hs'⟩ := dot_near hm.doubles.1 hm.weight.1 hv hlimit
  obtain ⟨t, ht, ht'⟩ := dot_near hm.doubles.2.1 hm.weight.2.1 hv hlimit
  obtain ⟨u, hu, hu'⟩ := dot_near hm.doubles.2.2 hm.weight.2.2 hv hlimit
  refine ⟨⟨s, t, u⟩, ?_, hs', ht', hu'⟩
  rw [multiply, hs, ht, hu]
  rfl

/-- A row that takes back what a matrix does to a coordinate, up to an error in its entries. -/
theorem exactDot_exact (row : Triple Number) (m : Matrix) (v : Triple ℝ) :
    row.exactDot (m.exact v) = (productRow row m).first * v.first +
      (productRow row m).second * v.second + (productRow row m).third * v.third := by
  simp only [Triple.exactDot, exact, productRow]
  push_cast
  ring

theorem abs_exactDot_sub_le {row : Triple Number} {s t : Triple ℝ} {weight : ℚ} {error : ℝ}
    (hweight : row.weight ≤ weight) (hfirst : |s.first - t.first| ≤ error)
    (hsecond : |s.second - t.second| ≤ error) (hthird : |s.third - t.third| ≤ error) :
    |row.exactDot s - row.exactDot t| ≤ weight * error := by
  have hsplit : row.exactDot s - row.exactDot t = row.first.value * (s.first - t.first) +
      row.second.value * (s.second - t.second) + row.third.value * (s.third - t.third) := by
    unfold Triple.exactDot
    ring
  have hreal : |(row.first.value : ℝ)| + |(row.second.value : ℝ)| + |(row.third.value : ℝ)| ≤
      weight := by
    exact_mod_cast hweight
  calc |row.exactDot s - row.exactDot t|
      ≤ |(row.first.value : ℝ)| * error + |(row.second.value : ℝ)| * error +
        |(row.third.value : ℝ)| * error := by
        rw [hsplit]
        apply (abs_add_three _ _ _).trans
        rw [abs_mul, abs_mul, abs_mul]
        gcongr
    _ ≤ weight * error := by
        rw [← add_mul, ← add_mul]
        exact mul_le_mul_of_nonneg_right hreal ((abs_nonneg _).trans hfirst)

theorem abs_exactDot_le {row : Triple Number} {v : Triple ℝ} {weight : ℚ} {bound : ℝ}
    (hweight : row.weight ≤ weight)
    (hv : |v.first| ≤ bound ∧ |v.second| ≤ bound ∧ |v.third| ≤ bound) :
    |row.exactDot v| ≤ weight * bound := by
  have hzero : row.exactDot ⟨0, 0, 0⟩ = 0 := by simp [Triple.exactDot]
  rw [← sub_zero (row.exactDot v), ← hzero]
  apply abs_exactDot_sub_le hweight <;> simp [hv]

/-- A row that takes a coordinate back from what a matrix makes of it, up to the last digits. -/
theorem abs_back_sub_le (row : Triple Number) (m : Matrix) (unit : Triple ℚ) {v : Triple ℝ}
    {bound : ℝ} (hfirst : |(productRow row m).first - unit.first| ≤ 1 / 10 ^ 15)
    (hsecond : |(productRow row m).second - unit.second| ≤ 1 / 10 ^ 15)
    (hthird : |(productRow row m).third - unit.third| ≤ 1 / 10 ^ 15)
    (hv : |v.first| ≤ bound ∧ |v.second| ≤ bound ∧ |v.third| ≤ bound) :
    |row.exactDot (m.exact v) -
      (unit.first * v.first + unit.second * v.second + unit.third * v.third)| ≤
      3 * bound / 10 ^ 15 := by
  have hcast {p q : ℚ} (h : |p - q| ≤ 1 / 10 ^ 15) : |(p : ℝ) - q| ≤ 1 / 10 ^ 15 := by
    have hreal := (Rat.cast_le (K := ℝ)).2 h
    push_cast at hreal
    exact hreal
  have hsplit : row.exactDot (m.exact v) -
      (unit.first * v.first + unit.second * v.second + unit.third * v.third) =
      ((productRow row m).first - unit.first) * v.first +
        ((productRow row m).second - unit.second) * v.second +
        ((productRow row m).third - unit.third) * v.third := by
    rw [exactDot_exact]
    ring
  calc _ ≤ 1 / 10 ^ 15 * bound + 1 / 10 ^ 15 * bound + 1 / 10 ^ 15 * bound := by
        rw [hsplit]
        apply (abs_add_three _ _ _).trans
        rw [abs_mul, abs_mul, abs_mul]
        exact add_le_add (add_le_add
          (mul_le_mul (hcast hfirst) hv.1 (abs_nonneg _) (by norm_num))
          (mul_le_mul (hcast hsecond) hv.2.1 (abs_nonneg _) (by norm_num)))
          (mul_le_mul (hcast hthird) hv.2.2 (abs_nonneg _) (by norm_num))
    _ = 3 * bound / 10 ^ 15 := by ring

end Matrix

namespace RgbSpace

theorem srgb_toXyz_moderate : srgb.toXyz.Moderate (11 / 10) := by
  constructor <;> decide +kernel

theorem srgb_fromXyz_moderate : srgb.fromXyz.Moderate (53 / 10) := by
  constructor <;> decide +kernel

/-- The matrices of sRGB are inverse, up to the last digits of their entries. -/
theorem abs_srgb_back_sub_le {v : Triple ℝ} {bound : ℝ}
    (hv : |v.first| ≤ bound ∧ |v.second| ≤ bound ∧ |v.third| ≤ bound) :
    |srgb.fromXyz.first.exactDot (srgb.toXyz.exact v) - v.first| ≤ 3 * bound / 10 ^ 15 ∧
      |srgb.fromXyz.second.exactDot (srgb.toXyz.exact v) - v.second| ≤ 3 * bound / 10 ^ 15 ∧
      |srgb.fromXyz.third.exactDot (srgb.toXyz.exact v) - v.third| ≤ 3 * bound / 10 ^ 15 := by
  have hfirst := Matrix.abs_back_sub_le srgb.fromXyz.first srgb.toXyz ⟨1, 0, 0⟩
    (by decide +kernel) (by decide +kernel) (by decide +kernel) hv
  have hsecond := Matrix.abs_back_sub_le srgb.fromXyz.second srgb.toXyz ⟨0, 1, 0⟩
    (by decide +kernel) (by decide +kernel) (by decide +kernel) hv
  have hthird := Matrix.abs_back_sub_le srgb.fromXyz.third srgb.toXyz ⟨0, 0, 1⟩
    (by decide +kernel) (by decide +kernel) (by decide +kernel) hv
  norm_num at hfirst hsecond hthird ⊢
  exact ⟨hfirst, hsecond, hthird⟩

theorem multiply_multiply_near {v : Triple Number} (hv : v.All (Number.DoubleWithin 450000001)) :
    ∃ xyz t, srgb.toXyz.multiply v = .ok xyz ∧ srgb.fromXyz.multiply xyz = .ok t ∧
      t.Near v.real (4 / 10 ^ 6) := by
  have hreal : |v.real.first| ≤ 450000001 ∧ |v.real.second| ≤ 450000001 ∧
      |v.real.third| ≤ 450000001 :=
    ⟨hv.1.abs_value_le, hv.2.1.abs_value_le, hv.2.2.abs_value_le⟩
  obtain ⟨xyz, hxyz, hnear⟩ := Matrix.multiply_near srgb_toXyz_moderate hv (by norm_num)
  have hlimit {n : Number} {row : Triple Number} (hrow : row.weight ≤ 11 / 10)
      (hn : n.Near (row.exactDot v.real) ((3 * (11 / 10 : ℚ) * 450000001 + 13) / 2 ^ 53)) :
      n.DoubleWithin 500000000 :=
    hn.doubleWithin (Matrix.abs_exactDot_le hrow hreal) (by norm_num)
  obtain ⟨t, ht, hback⟩ := Matrix.multiply_near srgb_fromXyz_moderate
    ⟨hlimit srgb_toXyz_moderate.weight.1 hnear.first,
      hlimit srgb_toXyz_moderate.weight.2.1 hnear.second,
      hlimit srgb_toXyz_moderate.weight.2.2 hnear.third⟩ (by norm_num)
  have hclose {n : Number} {row : Triple Number} {r : ℝ} (hrow : row.weight ≤ 53 / 10)
      (hn : n.Near (row.exactDot xyz.real) ((3 * (53 / 10 : ℚ) * 500000000 + 13) / 2 ^ 53))
      (hr : |row.exactDot (srgb.toXyz.exact v.real) - r| ≤ 3 * 450000001 / 10 ^ 15) :
      n.Near r (4 / 10 ^ 6) := by
    obtain ⟨d, rfl, hd⟩ := hn
    have hmoved := Matrix.abs_exactDot_sub_le hrow (s := xyz.real)
      (t := srgb.toXyz.exact v.real) hnear.first.error hnear.second.error hnear.third.error
    exact ⟨d, rfl, ((hd.trans hmoved).trans hr).mono (by norm_num)⟩
  obtain ⟨hfirst, hsecond, hthird⟩ := abs_srgb_back_sub_le hreal
  exact ⟨xyz, t, hxyz, ht, hclose srgb_fromXyz_moderate.weight.1 hback.first hfirst,
    hclose srgb_fromXyz_moderate.weight.2.1 hback.second hsecond,
    hclose srgb_fromXyz_moderate.weight.2.2 hback.third hthird⟩

theorem exists_decode {n : Number} (hn : n.DoubleWithin 4000) :
    ∃ l, srgb.decode n = .ok l ∧ l.DoubleWithin 450000001 ∧
      l.Near (Transfer.odd Transfer.light n.value) (5 / 10 ^ 6) := by
  obtain ⟨u, rfl, hu, hlimit⟩ := hn
  obtain ⟨l, hl, hnear⟩ := Transfer.decodeSrgb_near hu hlimit
  have hnumber : (Number.double l).Near (Transfer.odd Transfer.light u.real) (5 / 10 ^ 6) :=
    ⟨l, rfl, hnear⟩
  exact ⟨.double l, hl, hnumber.doubleWithin (Transfer.abs_odd_light_le hlimit) (by norm_num),
    hnumber⟩

theorem exists_encode {n l d : Number} (hn : n.DoubleWithin 4000)
    (hl : l.Near (Transfer.odd Transfer.light n.value) (5 / 10 ^ 6))
    (hd : d.Near l.value (4 / 10 ^ 6)) :
    ∃ w, srgb.encode d = .ok w ∧ w.Near n.value (12 / 10 ^ 5) := by
  have hclose := hl.error
  obtain ⟨d, rfl, hd⟩ := hd
  have hlight : d.Near (Transfer.odd Transfer.light n.value) (4 / 10 ^ 6 + 5 / 10 ^ 6) :=
    hd.trans hclose
  have hlimit : |d.real| ≤ 500000000 := by
    have hbound := Transfer.abs_odd_light_le hn.abs_value_le
    have hreal := hlight.abs_real_le
    norm_num at hreal
    linarith
  obtain ⟨w, hw, hnear⟩ := Transfer.encodeSrgb_near hlight.finite hlimit
  have hmoved := Transfer.abs_odd_signal_sub_le (Transfer.odd Transfer.light n.value) d.real
  have hback := Transfer.abs_odd_signal_odd_light_sub_le n.value
  refine ⟨.double w, hw, w, rfl, ((hnear.trans hmoved).trans hback).mono ?_⟩
  have := hlight.error
  norm_num at this ⊢
  linarith

/-- Channels that go to XYZ and back. -/
theorem channelsOfXyz_near {u : Triple Number} (hu : u.All (Number.DoubleWithin 4000)) :
    ∃ xyz w, srgb.channelsToXyz u = .ok xyz ∧ srgb.channelsOfXyz xyz = .ok w ∧
      w.Near u.real (12 / 10 ^ 5) := by
  obtain ⟨l₁, hl₁, hlimit₁, hlight₁⟩ := exists_decode hu.1
  obtain ⟨l₂, hl₂, hlimit₂, hlight₂⟩ := exists_decode hu.2.1
  obtain ⟨l₃, hl₃, hlimit₃, hlight₃⟩ := exists_decode hu.2.2
  obtain ⟨xyz, t, hxyz, ht, hnear⟩ := multiply_multiply_near (v := ⟨l₁, l₂, l₃⟩)
    ⟨hlimit₁, hlimit₂, hlimit₃⟩
  obtain ⟨w₁, hw₁, hback₁⟩ := exists_encode hu.1 hlight₁ hnear.first
  obtain ⟨w₂, hw₂, hback₂⟩ := exists_encode hu.2.1 hlight₂ hnear.second
  obtain ⟨w₃, hw₃, hback₃⟩ := exists_encode hu.2.2 hlight₃ hnear.third
  refine ⟨xyz, ⟨w₁, w₂, w₃⟩, ?_, ?_, hback₁, hback₂, hback₃⟩
  · rw [channelsToXyz, Triple.mapM_eq_ok hl₁ hl₂ hl₃]
    show (srgb.toXyz.multiply ⟨l₁, l₂, l₃⟩ >>= fun xyz => pure xyz) = _
    rw [hxyz]
    rfl
  · show (srgb.fromXyz.multiply xyz >>= fun t => t.mapM srgb.encode) = _
    rw [ht]
    exact Triple.mapM_eq_ok hw₁ hw₂ hw₃

end RgbSpace

end StyleValue
