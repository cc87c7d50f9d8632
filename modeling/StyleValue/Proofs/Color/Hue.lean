import Mathlib.Algebra.Order.Floor.Ring
import Mathlib.Data.Rat.Floor
import Mathlib.Tactic.Linarith
import Mathlib.Tactic.NormNum
import Mathlib.Tactic.Ring
import StyleValue.Color.Perceptual

/-!
# HSL over the rationals

With exact arithmetic the channels of HSL are a walk around the hexagon of hues. At each hue one of
them is at its greatest, one at its least, and one on its way between the two; a third of a turn on
they have changed places. The saturation and the lightness say how far apart the ends are and where
the middle between them is.
-/

set_option autoImplicit false

namespace StyleValue

namespace Hsl

def unshortened {α : Type} [Arithmetic α] (hsl : Triple α) : Computed (Triple α) := do
  let (low, high) ← bounds (.ok hsl.second) (.ok hsl.third)
  channels hsl.first low high

theorem toRgb_eq {α : Type} [Arithmetic α] (hsl : Triple α) : toRgb hsl =
    if Arithmetic.isZero hsl.second then .ok ⟨hsl.third, hsl.third, hsl.third⟩
    else unshortened hsl := rfl

theorem div_rat (x : ℚ) {y : ℚ} (h : y ≠ 0) : Arithmetic.div x y = .ok (x / y) := if_neg h

theorem mod_rat (x : ℚ) {y : ℚ} (h : y ≠ 0) :
    Arithmetic.mod x y = .ok (x - y * ⌊x / y⌋) := if_neg h

theorem fraction (m n : ℕ) (h : (n : ℚ) ≠ 0) :
    (.ok (m : ℚ) : Computed ℚ) / .ok (n : ℚ) = .ok ((m : ℚ) / n) :=
  div_rat _ h

theorem mod_one (turn : ℚ) : (.ok turn : Computed ℚ) % 1 = .ok (Int.fract turn) := by
  have hmod : (.ok turn : Computed ℚ) % 1 = Arithmetic.mod turn ((1 : ℕ) : ℚ) := rfl
  rw [hmod, mod_rat _ (by norm_num), Nat.cast_one, div_one, one_mul, Int.self_sub_floor]

def level (place : ℚ) : ℚ :=
  if place < 1 / 6 then 6 * place
  else if place < 1 / 2 then 1
  else if place < 2 / 3 then 6 * (2 / 3 - place)
  else 0

def levelAt (turn : ℚ) : ℚ := level (Int.fract turn)

theorem levelAt_add_int (turn : ℚ) (k : ℤ) : levelAt (turn + k) = levelAt turn := by
  rw [levelAt, Int.fract_add_intCast, levelAt]

theorem levelAt_of_place {turn place : ℚ} (k : ℤ) (hturn : turn = place + k) (hplace : 0 ≤ place)
    (hplace' : place < 1) : levelAt turn = level place := by
  rw [hturn, levelAt_add_int, levelAt, Int.fract_eq_self.2 ⟨hplace, hplace'⟩]

theorem channel_eq (low high turn : ℚ) :
    channel (.ok low) (.ok high) (.ok turn) =
      .ok (low + (high - low) * levelAt turn) := by
  have hsixth : (1 / 6 : Computed ℚ) = .ok (1 / 6) :=
    (fraction 1 6 (by norm_num)).trans (by norm_num)
  have hhalf : (1 / 2 : Computed ℚ) = .ok (1 / 2) :=
    (fraction 1 2 (by norm_num)).trans (by norm_num)
  have hthirds : (2 / 3 : Computed ℚ) = .ok (2 / 3) :=
    (fraction 2 3 (by norm_num)).trans (by norm_num)
  rw [channel, mod_one, hsixth, hhalf, hthirds]
  rw [levelAt]
  generalize Int.fract turn = place
  show (if decide (place < 1 / 6) then .ok ((high - low) * place * ((6 : ℕ) : ℚ) + low)
    else if decide (place < 1 / 2) then .ok high
    else if decide (place < 2 / 3) then .ok ((high - low) * (2 / 3 - place) * ((6 : ℕ) : ℚ) + low)
    else .ok low : Computed ℚ) = .ok (low + (high - low) * level place)
  simp only [decide_eq_true_eq, level]
  split_ifs
  all_goals
    refine congrArg Except.ok ?_
    push_cast
    ring

def levels (turn : ℚ) : Triple ℚ :=
  ⟨levelAt (turn + 1 / 3), levelAt turn, levelAt (turn - 1 / 3)⟩

theorem levels_add_int (turn : ℚ) (k : ℤ) : levels (turn + k) = levels turn := by
  have hred : turn + k + 1 / 3 = turn + 1 / 3 + k := by ring
  have hblue : turn + k - 1 / 3 = turn - 1 / 3 + k := by ring
  rw [levels, hred, hblue, levelAt_add_int, levelAt_add_int, levelAt_add_int, levels]

/-- A third of a turn on, each channel has the level of the one before it. -/
theorem levels_add_third (turn : ℚ) : levels (turn + 1 / 3) =
    ⟨(levels turn).third, (levels turn).first, (levels turn).second⟩ := by
  have hred : turn + 1 / 3 + 1 / 3 = turn - 1 / 3 + (1 : ℤ) := by push_cast; ring
  have hblue : turn + 1 / 3 - 1 / 3 = turn := by ring
  rw [levels, hred, hblue, levelAt_add_int, levels]

inductive OnEdge (way : ℚ) : Triple ℚ → Prop
  | redToYellow : OnEdge way ⟨1, way, 0⟩
  | yellowToGreen : OnEdge way ⟨way, 1, 0⟩
  | greenToCyan : OnEdge way ⟨0, 1, way⟩
  | cyanToBlue : OnEdge way ⟨0, way, 1⟩
  | blueToMagenta : OnEdge way ⟨way, 0, 1⟩
  | magentaToRed : OnEdge way ⟨1, 0, way⟩

theorem OnEdge.rotate {way : ℚ} {c : Triple ℚ} (h : OnEdge way c) :
    OnEdge way ⟨c.third, c.first, c.second⟩ := by
  cases h with
  | redToYellow => exact .greenToCyan
  | yellowToGreen => exact .cyanToBlue
  | greenToCyan => exact .blueToMagenta
  | cyanToBlue => exact .magentaToRed
  | blueToMagenta => exact .redToYellow
  | magentaToRed => exact .yellowToGreen

theorem exists_onEdge_first {place : ℚ} (h : 0 ≤ place) (h' : place < 1 / 3) :
    ∃ way, 0 ≤ way ∧ way ≤ 1 ∧ OnEdge way (levels place) := by
  have hred : levelAt (place + 1 / 3) = level (place + 1 / 3) :=
    levelAt_of_place 0 (by simp) (by linarith) (by linarith)
  have hgreen : levelAt place = level place :=
    levelAt_of_place 0 (by simp) h (by linarith)
  have hblue : levelAt (place - 1 / 3) = level (place + 2 / 3) :=
    levelAt_of_place (-1) (by push_cast; ring) (by linarith) (by linarith)
  rw [levels, hred, hgreen, hblue]
  have hlow : level (place + 2 / 3) = 0 := by
    rw [level, if_neg (by linarith), if_neg (by linarith), if_neg (by linarith)]
  by_cases hsixth : place < 1 / 6
  · have htop : level (place + 1 / 3) = 1 := by
      rw [level, if_neg (by linarith), if_pos (by linarith)]
    have hway : level place = 6 * place := if_pos hsixth
    rw [htop, hway, hlow]
    exact ⟨6 * place, by linarith, by linarith, .redToYellow⟩
  · have hway : level (place + 1 / 3) = 6 * (2 / 3 - (place + 1 / 3)) := by
      rw [level, if_neg (by linarith), if_neg (by linarith), if_pos (by linarith)]
    have htop : level place = 1 := by
      rw [level, if_neg hsixth, if_pos (by linarith)]
    rw [htop, hway, hlow]
    exact ⟨_, by linarith, by linarith, .yellowToGreen⟩

theorem exists_onEdge_add_third {turn : ℚ}
    (h : ∃ way, 0 ≤ way ∧ way ≤ 1 ∧ OnEdge way (levels turn)) :
    ∃ way, 0 ≤ way ∧ way ≤ 1 ∧ OnEdge way (levels (turn + 1 / 3)) := by
  obtain ⟨way, hway, hway', hedge⟩ := h
  exact ⟨way, hway, hway', levels_add_third turn ▸ hedge.rotate⟩

/-- At any hue, one channel is at the top, one at the bottom, and one between them. -/
theorem exists_onEdge (turn : ℚ) : ∃ way, 0 ≤ way ∧ way ≤ 1 ∧ OnEdge way (levels turn) := by
  obtain ⟨place, k, rfl, hplace, hplace'⟩ :
      ∃ (place : ℚ) (k : ℤ), turn = place + k ∧ 0 ≤ place ∧ place < 1 :=
    ⟨Int.fract turn, ⌊turn⌋, (Int.fract_add_floor turn).symm, Int.fract_nonneg turn,
      Int.fract_lt_one turn⟩
  rw [levels_add_int]
  by_cases hfirst : place < 1 / 3
  · exact exists_onEdge_first hplace hfirst
  by_cases hsecond : place < 2 / 3
  · have hplace : place = place - 1 / 3 + 1 / 3 := by ring
    rw [hplace]
    exact exists_onEdge_add_third (exists_onEdge_first (by linarith) (by linarith))
  · have hplace : place = place - 2 / 3 + 1 / 3 + 1 / 3 := by ring
    rw [hplace]
    exact exists_onEdge_add_third (exists_onEdge_add_third
      (exists_onEdge_first (by linarith) (by linarith)))

def highest (saturation lightness : ℚ) : ℚ :=
  if lightness ≤ 1 / 2 then lightness * (saturation + 1)
  else lightness + saturation - lightness * saturation

theorem bounds_eq (saturation lightness : ℚ) : bounds (.ok saturation) (.ok lightness) =
    .ok (lightness * 2 - highest saturation lightness, highest saturation lightness) := by
  have hhalf : (1 / 2 : Computed ℚ) = .ok (1 / 2) :=
    (fraction 1 2 (by norm_num)).trans (by norm_num)
  have htwo : (2 : Computed ℚ) = .ok 2 := rfl
  have hone : (1 : Computed ℚ) = .ok 1 := rfl
  rw [bounds, hhalf, htwo, hone, highest]
  by_cases hdark : lightness ≤ 1 / 2
  · have hle : Computed.le (.ok lightness) (.ok (1 / 2)) = .ok true :=
      congrArg Except.ok (decide_eq_true hdark)
    rw [hle, if_pos hdark]
    rfl
  · have hle : Computed.le (.ok lightness) (.ok (1 / 2)) = .ok false :=
      congrArg Except.ok (decide_eq_false hdark)
    rw [hle, if_neg hdark]
    rfl

/-- The channels are as far apart as the saturation and the lightness say. -/
theorem spread_eq (saturation lightness : ℚ) :
    highest saturation lightness - (lightness * 2 - highest saturation lightness) =
      saturation * (1 - |2 * lightness - 1|) := by
  unfold highest
  split_ifs with hdark
  · rw [abs_of_nonpos (by linarith)]
    ring
  · rw [abs_of_nonneg (by linarith)]
    ring

theorem highest_bounds {saturation lightness : ℚ} (hs : 0 ≤ saturation) (hs' : saturation ≤ 1)
    (hl : 0 ≤ lightness) (hl' : lightness ≤ 1) :
    lightness ≤ highest saturation lightness ∧ highest saturation lightness ≤ 1 ∧
      highest saturation lightness ≤ lightness * 2 := by
  have hdarker : 0 ≤ lightness * saturation := mul_nonneg hl hs
  have hdarker' : lightness * saturation ≤ lightness := mul_le_of_le_one_right hl hs'
  have hlighter : 0 ≤ (1 - lightness) * saturation := mul_nonneg (by linarith) hs
  have hlighter' : (1 - lightness) * saturation ≤ 1 - lightness :=
    mul_le_of_le_one_right (by linarith) hs'
  unfold highest
  split_ifs with hdark
  · refine ⟨?_, ?_, ?_⟩ <;> linarith
  · refine ⟨?_, ?_, ?_⟩ <;> linarith

def blend (low high : ℚ) (levels : Triple ℚ) : Triple ℚ :=
  ⟨low + (high - low) * levels.first, low + (high - low) * levels.second,
    low + (high - low) * levels.third⟩

theorem channels_eq (hue low high : ℚ) :
    channels hue low high = .ok (blend low high (levels (hue / 360))) := by
  have hthird : (1 / 3 : Computed ℚ) = .ok (1 / 3) :=
    (fraction 1 3 (by norm_num)).trans (by norm_num)
  have hturn : (.ok hue / 360 : Computed ℚ) = .ok (hue / 360) :=
    (div_rat hue (Nat.cast_ne_zero.2 (by decide : 360 ≠ 0))).trans (by norm_num)
  have hred : (.ok (hue / 360) + .ok (1 / 3) : Computed ℚ) = .ok (hue / 360 + 1 / 3) := rfl
  have hblue : (.ok (hue / 360) - .ok (1 / 3) : Computed ℚ) = .ok (hue / 360 - 1 / 3) := rfl
  unfold channels
  rw [hturn, hthird]
  dsimp only
  rw [hred, hblue, channel_eq, channel_eq, channel_eq]
  rfl

theorem unshortened_eq (hue saturation lightness : ℚ) :
    unshortened ⟨hue, saturation, lightness⟩ =
      .ok (blend (lightness * 2 - highest saturation lightness) (highest saturation lightness)
        (levels (hue / 360))) := by
  rw [unshortened, bounds_eq]
  exact channels_eq _ _ _

/-- Without saturation all channels are the lightness, as the shortcut has it. -/
theorem toRgb_eq_unshortened (hsl : Triple ℚ) : toRgb hsl = unshortened hsl := by
  rcases hsl with ⟨hue, saturation, lightness⟩
  rw [toRgb_eq]
  split_ifs with hzero
  · obtain rfl : saturation = 0 := of_decide_eq_true hzero
    have hhighest : highest 0 lightness = lightness := by
      unfold highest
      split_ifs <;> ring
    have hlowest : lightness * 2 - lightness = lightness := by ring
    rw [unshortened_eq, hhighest, hlowest]
    simp [blend]
  · rfl

theorem blend_extremes {low high way : ℚ} {levels : Triple ℚ} (hspread : low ≤ high)
    (hway : 0 ≤ way) (hway' : way ≤ 1) (hedge : OnEdge way levels) :
    let c := blend low high levels
    max c.first (max c.second c.third) = high ∧ min c.first (min c.second c.third) = low := by
  have hlow : low ≤ low + (high - low) * way := by
    linarith [mul_nonneg (sub_nonneg.2 hspread) hway]
  have hhigh : low + (high - low) * way ≤ high := by
    linarith [mul_le_of_le_one_right (sub_nonneg.2 hspread) hway']
  cases hedge <;> simp [blend, hspread, hlow, hhigh]

/-- The channels of HSL, computed exactly. They are channels of a color, whose middle is the
lightness and whose spread is what the saturation leaves of the greatest spread at that lightness.
Whole turns of the hue change nothing, a third of a turn moves the channels on, and no saturation
needs no formula of its own. -/
theorem toRgb_exact (h s l : ℚ) (hs : 0 ≤ s ∧ s ≤ 1) (hl : 0 ≤ l ∧ l ≤ 1) :
    ∃ r g b : ℚ, toRgb ⟨h, s, l⟩ = .ok ⟨r, g, b⟩ ∧
      ((0 ≤ r ∧ r ≤ 1) ∧ (0 ≤ g ∧ g ≤ 1) ∧ 0 ≤ b ∧ b ≤ 1) ∧
      (max r (max g b) + min r (min g b)) / 2 = l ∧
      max r (max g b) - min r (min g b) = s * (1 - |2 * l - 1|) ∧
      (∀ k : ℤ, toRgb ⟨h + 360 * k, s, l⟩ = .ok ⟨r, g, b⟩) ∧
      toRgb ⟨h + 120, s, l⟩ = .ok ⟨b, r, g⟩ ∧
      unshortened ⟨h, s, l⟩ = .ok ⟨r, g, b⟩ := by
  obtain ⟨hmiddle, hhigh, hlow⟩ := highest_bounds hs.1 hs.2 hl.1 hl.2
  obtain ⟨way, hway, hway', hedge⟩ := exists_onEdge (h / 360)
  have hspread : l * 2 - highest s l ≤ highest s l := by linarith
  obtain ⟨hgreatest, hleast⟩ := blend_extremes hspread hway hway' hedge
  set c := blend (l * 2 - highest s l) (highest s l) (levels (h / 360)) with hc
  have hunshortened : unshortened ⟨h, s, l⟩ = .ok c := unshortened_eq h s l
  have habove : 0 ≤ min c.first (min c.second c.third) := by linarith
  have hbelow : max c.first (max c.second c.third) ≤ 1 := by linarith
  rw [le_min_iff, le_min_iff] at habove
  rw [max_le_iff, max_le_iff] at hbelow
  refine ⟨c.first, c.second, c.third, ?_, ⟨⟨habove.1, hbelow.1⟩, ⟨habove.2.1, hbelow.2.1⟩,
    habove.2.2, hbelow.2.2⟩, ?_, ?_, ?_, ?_, ?_⟩
  · rw [toRgb_eq_unshortened, hunshortened]
  · rw [hgreatest, hleast]
    ring
  · rw [hgreatest, hleast, spread_eq]
  · intro k
    have hturns : (h + 360 * k) / 360 = h / 360 + k := by ring
    rw [toRgb_eq_unshortened, unshortened_eq, hturns, levels_add_int]
  · have hthird : (h + 120) / 360 = h / 360 + 1 / 3 := by ring
    rw [toRgb_eq_unshortened, unshortened_eq, hthird, levels_add_third]
    rfl
  · exact hunshortened

/-- Magenta, dark and not quite saturated, where two edges meet at a hue below zero. -/
theorem toRgb_exact_magenta :
    ((0 : ℚ) ≤ 3 / 4 ∧ (3 / 4 : ℚ) ≤ 1) ∧ ((0 : ℚ) ≤ 1 / 4 ∧ (1 / 4 : ℚ) ≤ 1) ∧
      toRgb (⟨-60, 3 / 4, 1 / 4⟩ : Triple ℚ) = .ok ⟨7 / 16, 1 / 16, 7 / 16⟩ ∧
      toRgb (⟨-60 + 360 * (2 : ℤ), 3 / 4, 1 / 4⟩ : Triple ℚ) = .ok ⟨7 / 16, 1 / 16, 7 / 16⟩ ∧
      toRgb (⟨-60 + 120, 3 / 4, 1 / 4⟩ : Triple ℚ) = .ok ⟨7 / 16, 7 / 16, 1 / 16⟩ := by
  have hs : (0 : ℚ) ≤ 3 / 4 ∧ (3 / 4 : ℚ) ≤ 1 := by norm_num
  have hl : (0 : ℚ) ≤ 1 / 4 ∧ (1 / 4 : ℚ) ≤ 1 := by norm_num
  have hcolor : toRgb (⟨-60, 3 / 4, 1 / 4⟩ : Triple ℚ) = .ok ⟨7 / 16, 1 / 16, 7 / 16⟩ := by
    decide +kernel
  obtain ⟨r, g, b, hrgb, -, -, -, hturns, hthird, -⟩ := toRgb_exact (-60) (3 / 4) (1 / 4) hs hl
  obtain ⟨rfl, rfl, rfl⟩ := Triple.mk.inj (Except.ok.inj (hrgb.symm.trans hcolor))
  exact ⟨hs, hl, hcolor, hturns 2, hthird⟩

end Hsl

end StyleValue
