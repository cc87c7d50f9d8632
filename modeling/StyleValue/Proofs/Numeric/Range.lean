import StyleValue.Numeric.Number
import StyleValue.Proofs.Numeric.Rounding

/-!
# Numbers within a range

Clamping leaves no infinity and nothing that is not a number, so that what is clamped can be
scaled a little and rounded to an integer without failing.
-/

set_option autoImplicit false

namespace StyleValue

namespace Double

theorem add_bounds {x y : Double} {r : ℚ} (hx : x.isFinite) (hy : y.isFinite)
    (h : |x.value + y.value| ≤ r) (hr : r < 2 ^ (1023 : Nat)) :
    (x + y).isFinite ∧ |(x + y).value| ≤ 2 * r + 1 := by
  cases x with
  | notANumber | infinite => cases hx
  | finite s m e hm =>
    cases y with
    | notANumber | infinite => cases hy
    | finite t n f hn =>
      have hpos : 0 ≤ r := (abs_nonneg _).trans h
      show (Double.add _ _).isFinite ∧ |(Double.add _ _).value| ≤ 2 * r + 1
      unfold Double.add
      dsimp only
      split
      · rw [value_zero, abs_zero]
        exact ⟨rfl, by linarith⟩
      · obtain ⟨hfinite, hvalue⟩ := nearest_bounds _ _ (h.trans_lt hr)
        exact ⟨hfinite, hvalue.trans (by linarith)⟩

theorem mul_bounds {x y : Double} {r : ℚ} (hx : x.isFinite) (hy : y.isFinite)
    (h : |x.value * y.value| ≤ r) (hr : r < 2 ^ (1023 : Nat)) :
    (x * y).isFinite ∧ |(x * y).value| ≤ 2 * r + 1 := by
  cases x with
  | notANumber | infinite => cases hx
  | finite s m e hm =>
    cases y with
    | notANumber | infinite => cases hy
    | finite t n f hn =>
      obtain ⟨hfinite, hvalue⟩ := nearest_bounds (s != t) _ (h.trans_lt hr)
      exact ⟨hfinite, hvalue.trans (by linarith)⟩

theorem compareRat?_le {x : Double} {q : ℚ} (h : x.compareRat? q ≠ none)
    (hgt : x.compareRat? q ≠ some .gt) : x = .infinite true ∨ x.isFinite ∧ x.value ≤ q := by
  cases x with
  | notANumber => exact absurd rfl h
  | infinite negative =>
    cases negative with
    | true => exact .inl rfl
    | false => exact absurd rfl hgt
  | finite s m e hm =>
    refine .inr ⟨rfl, ?_⟩
    simp only [compareRat?, compareOfLessAndEq, ne_eq, Option.some.injEq] at hgt
    by_contra hlt
    rw [not_le] at hlt
    simp [not_lt_of_gt hlt, hlt.ne'] at hgt

theorem compareRat?_ge {x : Double} {q : ℚ} (h : x.compareRat? q ≠ none)
    (hlt : x.compareRat? q ≠ some .lt) : x = .infinite false ∨ x.isFinite ∧ q ≤ x.value := by
  cases x with
  | notANumber => exact absurd rfl h
  | infinite negative =>
    cases negative with
    | false => exact .inl rfl
    | true => exact absurd rfl hlt
  | finite s m e hm =>
    refine .inr ⟨rfl, ?_⟩
    by_contra hge
    rw [not_le] at hge
    simp [compareRat?, compareOfLessAndEq, hge] at hlt

end Double

namespace Number

def Within (limit : ℚ) : Number → Prop
  | .integer n => |(n : ℚ)| ≤ limit
  | .double x => x.isFinite ∧ |x.value| ≤ limit

instance (limit : ℚ) (n : Number) : Decidable (Within limit n) := by
  cases n <;> unfold Within <;> infer_instance

theorem le_of_integer_le {m n : Int} (h : (integer m).le (.integer n)) : m ≤ n := by
  by_contra hlt
  have hgt : ¬ m < n ∧ m ≠ n := by omega
  simp [le, compare?, compareOfLessAndEq, hgt] at h

theorem value_of_integer_le {m : Int} {x : Double} (h : (integer m).le (.double x)) :
    x = .infinite false ∨ x.isFinite ∧ m ≤ x.value := by
  apply Double.compareRat?_ge
  all_goals
    intro hcompare
    simp [le, compare?, hcompare] at h

theorem value_of_le_integer {n : Int} {x : Double} (h : (double x).le (.integer n)) :
    x = .infinite true ∨ x.isFinite ∧ x.value ≤ n := by
  apply Double.compareRat?_le
  all_goals
    intro hcompare
    simp [le, compare?, hcompare] at h

theorem clamp_within (x : Number) (high : Nat) : (x.clamp 0 (.integer high)).Within high := by
  have hzero : Within high 0 := by
    show |((0 : Int) : ℚ)| ≤ high
    simp
  have hhigh : Within high (.integer high) := by
    show |((high : Int) : ℚ)| ≤ high
    simp
  unfold clamp
  split
  · next h =>
    obtain ⟨hlow, hup⟩ := Bool.and_eq_true_iff.1 h
    cases x with
    | integer n =>
      have hn : (0 : Int) ≤ n := le_of_integer_le hlow
      have hn' : n ≤ high := le_of_integer_le hup
      show |(n : ℚ)| ≤ high
      rw [abs_of_nonneg (by exact_mod_cast hn)]
      exact_mod_cast hn'
    | double x =>
      obtain rfl | ⟨hfinite, hvalue⟩ := value_of_integer_le hlow
      · cases hup
      · obtain rfl | ⟨-, hvalue'⟩ := value_of_le_integer hup
        · cases hfinite
        · refine ⟨hfinite, ?_⟩
          rw [abs_of_nonneg (by exact_mod_cast hvalue)]
          exact_mod_cast hvalue'
  · split
    · exact hzero
    · exact hhigh

/-- The double of a number within a range is finite and not far out of it. -/
theorem toDouble_within {x : Number} {r : ℚ} (hx : x.Within r) (hr : r < 2 ^ (1023 : Nat)) :
    ∃ d : Double, x.toDouble = .ok d ∧ d.isFinite ∧ |d.value| ≤ 2 * r + 1 := by
  cases x with
  | integer n =>
    obtain ⟨hfinite, hvalue⟩ := Double.nearest_bounds (decide ((n : ℚ) < 0)) n (hx.trans_lt hr)
    exact ⟨Double.ofRat n, if_pos hfinite, hfinite, hvalue.trans (by gcongr; exact hx)⟩
  | double d =>
    have hpos : 0 ≤ |d.value| := abs_nonneg _
    exact ⟨d, rfl, hx.1, by linarith [hx.2]⟩

theorem truncate_within {x : Number} {r : ℚ} (hx : x.Within r) : ∃ n, x.truncate = .ok n := by
  cases x with
  | integer n => exact ⟨n, rfl⟩
  | double x =>
    cases x with
    | finite s m e hm => exact ⟨_, rfl⟩
    | notANumber | infinite => cases hx.1

theorem combine_double {f : Int → Int → Int} {g : Double → Double → Double} {x : Number}
    {d : Double} (h : x.toDouble = .ok d) (e : Double) :
    combine f g x (.double e) = .ok (.double (g d e)) := by
  cases x with
  | integer n =>
    rw [combine, h]
    · rfl
    · simp
  | double x =>
    cases h
    rfl

theorem lt_limit {r : ℚ} (h : r ≤ 2048) : r < 2 ^ (1023 : Nat) := by
  calc r < 2 ^ (12 : Nat) := h.trans_lt (by norm_num)
    _ ≤ 2 ^ (1023 : Nat) := pow_le_pow_right₀ one_le_two (by decide)

theorem mul_within {x : Number} (hx : x.Within 1) : ∃ y, x.mul 255 = .ok y ∧ y.Within 1023 := by
  cases x with
  | integer n =>
    refine ⟨.integer (n * 255), rfl, ?_⟩
    have hn : |(n : ℚ)| ≤ 1 := hx
    show |((n * 255 : Int) : ℚ)| ≤ 1023
    rw [Int.cast_mul, abs_mul]
    norm_num
    linarith
  | double d =>
    have hbyte : (255 : Number).Within 255 := by
      show |((255 : Int) : ℚ)| ≤ 255
      norm_num
    obtain ⟨e, hdouble, hfinite, hvalue⟩ := toDouble_within hbyte (lt_limit (by norm_num))
    have hproduct : |d.value * e.value| ≤ 511 := by
      rw [abs_mul]
      have := mul_le_mul hx.2 hvalue (abs_nonneg _) zero_le_one
      linarith
    obtain ⟨hfinite', hvalue'⟩ := Double.mul_bounds hx.1 hfinite hproduct (lt_limit (by norm_num))
    refine ⟨.double (d * e), ?_, hfinite', hvalue'.trans (by norm_num)⟩
    show (do return Number.double ((← Except.ok d) * (← Number.toDouble 255))) = _
    rw [hdouble]
    rfl

/-- A number within a range is rounded to an integer. -/
theorem roundHalfUp_within {x : Number} {r : ℚ} (hx : x.Within r) (hr : r ≤ 1023) :
    ∃ n : Int, x.roundHalfUp = .ok n ∧ n.natAbs < 2 ^ 13 := by
  have hhalf : (0.5 : Double).isFinite ∧ (0.5 : Double).value = 1 / 2 := by decide +kernel
  obtain ⟨d, hdouble, hfinite, hvalue⟩ := toDouble_within hx (lt_limit (by linarith))
  have hsum : |d.value + (0.5 : Double).value| ≤ 2048 := by
    rw [hhalf.2]
    have := abs_add_le d.value (1 / 2)
    norm_num at this ⊢
    linarith
  obtain ⟨hfinite', hvalue'⟩ := Double.add_bounds hfinite hhalf.1 hsum (lt_limit le_rfl)
  have hadd : x.add 0.5 = .ok (.double (d + 0.5)) := combine_double hdouble _
  have hfloor : (d + 0.5).floor = .ok (d + 0.5).value.floor := by
    cases hd : d + 0.5 with
    | finite => rfl
    | notANumber | infinite =>
      rw [hd] at hfinite'
      cases hfinite'
  refine ⟨(d + 0.5).value.floor, ?_, ?_⟩
  · rw [roundHalfUp, hadd]
    exact hfloor
  · have hlow : (((d + 0.5).value.floor : Int) : ℚ) ≤ (d + 0.5).value := Int.floor_le _
    have hhigh : (d + 0.5).value < ((d + 0.5).value.floor : Int) + 1 := Int.lt_floor_add_one _
    obtain ⟨hmin, hmax⟩ := abs_le.1 hvalue'
    have hle : ((d + 0.5).value.floor : ℚ) ≤ 4097 := by linarith
    have hge : (-4098 : ℚ) ≤ (d + 0.5).value.floor := by linarith
    have hle' : (d + 0.5).value.floor ≤ 4097 := by exact_mod_cast hle
    have hge' : -4098 ≤ (d + 0.5).value.floor := by exact_mod_cast hge
    omega

end Number

namespace Number

def value : Number → ℚ
  | .integer n => n
  | .double x => x.value

def Finite : Number → Prop
  | .integer _ => True
  | .double x => x.isFinite

variable {x y : Number}

theorem swap_compareOfLessAndEq (p q : ℚ) :
    (compareOfLessAndEq p q).swap = compareOfLessAndEq q p := by
  unfold compareOfLessAndEq
  obtain h | rfl | h := lt_trichotomy p q
  · simp [h, h.not_gt, h.ne']
  · simp
  · simp [h, h.not_gt, h.ne']

theorem compare?_of_finite (hx : x.Finite) (hy : y.Finite) :
    x.compare? y = some (compareOfLessAndEq x.value y.value) := by
  have hdouble {d : Double} (hd : d.isFinite) (q : ℚ) :
      d.compareRat? q = some (compareOfLessAndEq d.value q) := by
    cases d with
    | notANumber | infinite => cases hd
    | finite => rfl
  cases x with
  | integer m =>
    cases y with
    | integer n => simp [compare?, value, compareOfLessAndEq]
    | double d =>
      show (d.compareRat? m).map Ordering.swap = _
      rw [hdouble hy, Option.map_some, swap_compareOfLessAndEq]
      rfl
  | double d =>
    cases y with
    | integer n => exact hdouble hx n
    | double e =>
      cases d with
      | notANumber | infinite => cases hx
      | finite =>
        cases e with
        | notANumber | infinite => cases hy
        | finite => rfl

theorem lt_iff (hx : x.Finite) (hy : y.Finite) : x.lt y = true ↔ x.value < y.value := by
  rw [lt, compare?_of_finite hx hy]
  simp [compareOfLessAndEq_eq_lt]

theorem le_iff (hx : x.Finite) (hy : y.Finite) : x.le y = true ↔ x.value ≤ y.value := by
  rw [le, compare?_of_finite hx hy, le_iff_lt_or_eq]
  unfold compareOfLessAndEq
  split
  · next h => simp [h]
  · next h => split <;> simp_all

/-- A finite number is clamped by its value. -/
theorem clamp_of_finite (low high : Number) (hx : x.Finite) (hlow : low.Finite)
    (hhigh : high.Finite) (h : low.value ≤ high.value) : (x.clamp low high).Finite ∧
      (x.clamp low high).value = max low.value (min high.value x.value) := by
  unfold clamp
  by_cases hlow' : low.value ≤ x.value
  · by_cases hhigh' : x.value ≤ high.value
    · rw [(le_iff hlow hx).2 hlow', (le_iff hx hhigh).2 hhigh', if_pos (by rfl),
        min_eq_right hhigh', max_eq_right hlow']
      exact ⟨hx, rfl⟩
    · have hle : x.le high = false := by simpa using mt (le_iff hx hhigh).1 hhigh'
      have hlt : x.lt low = false := by simpa using mt (lt_iff hx hlow).1 (not_lt.2 hlow')
      rw [hle, hlt, Bool.and_false, if_neg (by simp), if_neg (by simp),
        min_eq_left (not_le.1 hhigh').le, max_eq_right h]
      exact ⟨hhigh, rfl⟩
  · have hle : low.le x = false := by simpa using mt (le_iff hlow hx).1 hlow'
    rw [hle, (lt_iff hx hlow).2 (not_le.1 hlow'), Bool.false_and, if_neg (by simp), if_pos rfl,
      max_eq_left ((min_le_right _ _).trans (not_le.1 hlow').le)]
    exact ⟨hlow, rfl⟩

theorem Within.finite {limit : ℚ} (h : x.Within limit) : x.Finite := by
  cases x with
  | integer n => trivial
  | double d => exact h.1

theorem Within.mono {r s : ℚ} (h : x.Within r) (hrs : r ≤ s) : x.Within s := by
  cases x with
  | integer n => exact h.trans hrs
  | double d => exact ⟨h.1, h.2.trans hrs⟩

theorem Within.abs_value_le {limit : ℚ} (h : x.Within limit) : |x.value| ≤ limit := by
  cases x with
  | integer n => exact h
  | double d => exact h.2

/-- The integer part of a finite number that is not negative. -/
theorem truncate_of_nonneg (hx : x.Finite) (h : 0 ≤ x.value) :
    x.truncate = .ok ⌊x.value⌋ := by
  cases x with
  | integer n =>
    show Except.ok n = _
    rw [show (integer n).value = n from rfl, Int.floor_intCast]
  | double d =>
    cases d with
    | notANumber | infinite => cases hx
    | finite s m e hm => exact congrArg Except.ok (if_neg (not_lt.2 h))

theorem isNotANumber_of_within {limit : ℚ} (hx : x.Within limit)
    (hlimit : limit < 2 ^ (1023 : Nat)) : x.isNotANumber = .ok false := by
  obtain ⟨d, hd, hfinite, -⟩ := toDouble_within hx hlimit
  rw [isNotANumber, hd]
  cases d with
  | notANumber | infinite => cases hfinite
  | finite => rfl

end Number

theorem Double.floor_of_finite {d : Double} (hd : d.isFinite) : d.floor = .ok ⌊d.value⌋ := by
  cases d with
  | notANumber | infinite => cases hd
  | finite => rfl

end StyleValue
