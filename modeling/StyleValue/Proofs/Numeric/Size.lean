import StyleValue.Numeric.Arithmetic
import StyleValue.Proofs.Failure
import StyleValue.Proofs.Numeric.Rounding

/-!
# The size of numbers

Arithmetic on doubles never fails, while an integer can be too large for the double that a mixed
operation takes of it. Sizes follow the integers through a formula: an operation fails by overflow
only, and not even so as long as the integers are known to be small. What is known of the integers
is a parameter, so that one statement is about all numbers and about small ones.
-/

set_option autoImplicit false

namespace StyleValue

inductive Size
  | double
  | bits (count : Nat)
deriving DecidableEq

namespace Size

def IsSmall : Size → Prop
  | .double => True
  | .bits n => n ≤ 1023

instance (s : Size) : Decidable s.IsSmall := by
  cases s <;> unfold IsSmall <;> infer_instance

def combine (grow : Nat → Nat → Nat) : Size → Size → Size
  | .bits j, .bits k => .bits (grow j k)
  | _, _ => .double

protected def add : Size → Size → Size := combine fun j k => max j k + 1

protected def mul : Size → Size → Size := combine fun j k => j + k

end Size

def Overflow (tame tolerated : Prop) (fault : Fault) : Prop :=
  fault = .overflow ∧ (tame → tolerated)

namespace Number

def Fits (tame : Prop) : Size → Number → Prop
  | _, .double _ => True
  | .double, .integer _ => False
  | .bits k, .integer n => tame → n.natAbs < 2 ^ k

variable {tame tolerated : Prop} {x y : Number} {j k : Size}

theorem fits_double (x : Double) (s : Size) : Fits tame s (.double x) := by
  cases s <;> trivial

theorem fits_of_not (h : ¬ tame) (k : Nat) (x : Number) : Fits tame (.bits k) x := by
  cases x with
  | double x => trivial
  | integer n => exact fun htame => absurd htame h

theorem Fits.mono {j k : Nat} (h : Fits tame (.bits j) x) (hjk : j ≤ k) :
    Fits tame (.bits k) x := by
  cases x with
  | double x => trivial
  | integer n =>
    intro htame
    exact (h htame).trans_le (Nat.pow_le_pow_right (by decide) hjk)

theorem Fits.of_double (h : Fits tame .double x) (s : Size) : Fits tame s x := by
  cases x with
  | double x => exact fits_double x s
  | integer n => exact h.elim

theorem natAbs_lt_limit {n : Int} {k : Nat} (hn : n.natAbs < 2 ^ k) (hk : k ≤ 1023) :
    (n.natAbs : ℚ) < 2 ^ (1023 : Nat) := by
  calc (n.natAbs : ℚ) < 2 ^ k := by exact_mod_cast hn
    _ ≤ 2 ^ (1023 : Nat) := pow_le_pow_right₀ one_le_two hk

theorem ofFinite_meets {α : Type} {x : Double} {a : α} {results : α → Prop}
    (hfinite : tame → x.isFinite) (ha : results a) : Meets (Overflow tame tolerated) results
      (if x.isFinite then .ok a else .error .overflow : Computed α) := by
  split
  · exact ha
  next hinfinite => exact ⟨rfl, fun htame => absurd (hfinite htame) hinfinite⟩

theorem toDouble_meets (hx : x.Fits tame j) (hj : j.IsSmall) :
    Meets (Overflow tame tolerated) (fun _ => True) x.toDouble := by
  match x, j with
  | .double _, _ => trivial
  | .integer _, .double => exact hx.elim
  | .integer n, .bits k =>
    apply ofFinite_meets _ trivial
    intro htame
    apply (Double.nearest_bounds _ _ _).1
    rw [← Int.cast_abs, ← Nat.cast_natAbs]
    exact natAbs_lt_limit (hx htame) hj

theorem combine_meets {f : Int → Int → Int} {g : Double → Double → Double}
    {grow : Nat → Nat → Nat} (hx : x.Fits tame j) (hy : y.Fits tame k) (hj : j.IsSmall)
    (hk : k.IsSmall) (hf : ∀ a b m n, m.natAbs < 2 ^ a → n.natAbs < 2 ^ b →
      (f m n).natAbs < 2 ^ grow a b) :
    Meets (Overflow tame tolerated) (Fits tame (j.combine grow k)) (combine f g x y) := by
  have hdoubles : Meets (Overflow tame tolerated) (Fits tame (j.combine grow k))
      (do return .double (g (← x.toDouble) (← y.toDouble))) := by
    apply (toDouble_meets hx hj).bind
    intro a _
    apply (toDouble_meets hy hk).bind
    intro b _
    exact Meets.pure (fits_double (g a b) _)
  match x, y, j, k with
  | .double _, _, _, _ => exact hdoubles
  | .integer _, .double _, _, _ => exact hdoubles
  | .integer m, .integer n, .bits a, .bits b =>
    intro htame
    exact hf a b m n (hx htame) (hy htame)
  | .integer _, .integer _, .double, _ => exact hx.elim
  | .integer _, .integer _, .bits _, .double => exact hy.elim

theorem natAbs_lt_of_le {m n r : Int} {a b : Nat} (hm : m.natAbs < 2 ^ a) (hn : n.natAbs < 2 ^ b)
    (hr : r.natAbs ≤ m.natAbs + n.natAbs) : r.natAbs < 2 ^ (max a b + 1) := by
  have ha : 2 ^ a ≤ 2 ^ max a b := Nat.pow_le_pow_right (by decide) (Nat.le_max_left a b)
  have hb : 2 ^ b ≤ 2 ^ max a b := Nat.pow_le_pow_right (by decide) (Nat.le_max_right a b)
  rw [Nat.pow_succ]
  omega

theorem add_meets (hx : x.Fits tame j) (hy : y.Fits tame k) (hj : j.IsSmall) (hk : k.IsSmall) :
    Meets (Overflow tame tolerated) (Fits tame (j.add k)) (x.add y) := by
  apply combine_meets hx hy hj hk
  intro a b m n hm hn
  exact natAbs_lt_of_le hm hn (by omega)

theorem sub_meets (hx : x.Fits tame j) (hy : y.Fits tame k) (hj : j.IsSmall) (hk : k.IsSmall) :
    Meets (Overflow tame tolerated) (Fits tame (j.add k)) (x.sub y) := by
  apply combine_meets hx hy hj hk
  intro a b m n hm hn
  exact natAbs_lt_of_le hm hn (by omega)

theorem mul_meets (hx : x.Fits tame j) (hy : y.Fits tame k) (hj : j.IsSmall) (hk : k.IsSmall) :
    Meets (Overflow tame tolerated) (Fits tame (j.mul k)) (x.mul y) := by
  apply combine_meets hx hy hj hk
  intro a b m n hm hn
  rw [Int.natAbs_mul, Nat.pow_add]
  exact Nat.mul_lt_mul'' hm hn

theorem natAbs_fmod_le (m n : Int) : (m.fmod n).natAbs ≤ m.natAbs + n.natAbs := by
  by_cases hn : n = 0
  · simp [hn]
  · have hlow := Int.emod_nonneg m hn
    have hhigh := Int.emod_lt_abs m hn
    rw [Int.abs_eq_natAbs] at hhigh
    rw [Int.fmod_eq_emod]
    split <;> omega

theorem mod_meets (hx : x.Fits tame j) (hy : y.Fits tame k) (hj : j.IsSmall) (hk : k.IsSmall)
    (hzero : y.isZero = false) :
    Meets (Overflow tame tolerated) (Fits tame (j.add k)) (x.mod y) := by
  unfold Number.mod
  rw [hzero]
  apply combine_meets hx hy hj hk
  intro a b m n hm hn
  exact natAbs_lt_of_le hm hn (natAbs_fmod_le m n)

theorem abs_div_le {m n : Int} (hn : n ≠ 0) : |(m : ℚ) / n| ≤ m.natAbs := by
  rw [abs_div, ← Int.cast_abs, Nat.cast_natAbs]
  exact div_le_self (by positivity) (by exact_mod_cast Int.one_le_abs hn)

/-- A quotient is a double, and that of integers is not larger than the dividend. -/
theorem div_meets (hx : x.Fits tame j) (hy : y.Fits tame k) (hj : j.IsSmall) (hk : k.IsSmall)
    (hzero : y.isZero = false) :
    Meets (Overflow tame tolerated) (Fits tame .double) (x.div y) := by
  have hdoubles : Meets (Overflow tame tolerated) (Fits tame .double)
      (do return .double ((← x.toDouble) / (← y.toDouble))) := by
    apply (toDouble_meets hx hj).bind
    intro a _
    apply (toDouble_meets hy hk).bind
    intro b _
    exact Meets.pure trivial
  unfold Number.div
  rw [hzero]
  match x, y, j with
  | .double _, _, _ => exact hdoubles
  | .integer _, .double _, _ => exact hdoubles
  | .integer _, .integer _, .double => exact hx.elim
  | .integer m, .integer n, .bits a =>
    apply ofFinite_meets _ trivial
    intro htame
    apply (Double.nearest_bounds _ _ _).1
    have hn : n ≠ 0 := by simpa [isZero] using hzero
    exact (abs_div_le hn).trans_lt (natAbs_lt_limit (hx htame) hj)

theorem abs_fits (hx : x.Fits tame j) : x.abs.Fits tame j := by
  match x, j with
  | .double x, _ => exact fits_double _ _
  | .integer _, .double => exact hx.elim
  | .integer n, .bits k =>
    intro htame
    exact (Int.natAbs_natCast n.natAbs).symm ▸ hx htame

theorem clamp_fits {low high : Number} (hx : x.Fits tame j) (hlow : low.Fits tame j)
    (hhigh : high.Fits tame j) : (x.clamp low high).Fits tame j := by
  unfold clamp
  split
  · exact hx
  · split
    · exact hlow
    · exact hhigh

theorem larger_fits (hx : x.Fits tame j) (hy : y.Fits tame j) : (x.larger y).Fits tame j := by
  unfold larger
  split
  · exact hy
  · exact hx

theorem isNotANumber_meets (hx : x.Fits tame j) (hj : j.IsSmall) :
    Meets (Overflow tame tolerated) (fun _ => True) x.isNotANumber :=
  (toDouble_meets hx hj).bind fun _ _ => Meets.pure trivial

theorem isFinite_meets (hx : x.Fits tame j) (hj : j.IsSmall) :
    Meets (Overflow tame tolerated) (fun _ => True) x.isFinite :=
  (toDouble_meets hx hj).bind fun _ _ => Meets.pure trivial

end Number

def Sized (tame tolerated : Prop) (s : Size) : Computed Number → Prop :=
  Meets (Overflow tame tolerated) (Number.Fits tame s)

namespace Sized

variable {tame tolerated : Prop} {x y : Computed Number} {j k : Size}

theorem of_fits {n : Number} (h : n.Fits tame j) : Sized tame tolerated j (.ok n) := h

theorem of_double (hx : Sized tame tolerated .double x) (s : Size) : Sized tame tolerated s x :=
  hx.weaken fun _ h => h.of_double s

theorem lift {operation : Number → Number → Computed Number} {s : Size}
    (hx : Sized tame tolerated j x) (hy : Sized tame tolerated k y)
    (h : ∀ m n : Number, m.Fits tame j → n.Fits tame k → Sized tame tolerated s (operation m n)) :
    Sized tame tolerated s (Computed.lift operation x y) :=
  hx.bind fun m hm => hy.bind fun n hn => h m n hm hn

theorem add (hx : Sized tame tolerated j x) (hy : Sized tame tolerated k y)
    (hj : j.IsSmall := by decide) (hk : k.IsSmall := by decide) :
    Sized tame tolerated (j.add k) (x + y) :=
  hx.lift hy fun _ _ hm hn => Number.add_meets hm hn hj hk

theorem sub (hx : Sized tame tolerated j x) (hy : Sized tame tolerated k y)
    (hj : j.IsSmall := by decide) (hk : k.IsSmall := by decide) :
    Sized tame tolerated (j.add k) (x - y) :=
  hx.lift hy fun _ _ hm hn => Number.sub_meets hm hn hj hk

theorem mul (hx : Sized tame tolerated j x) (hy : Sized tame tolerated k y)
    (hj : j.IsSmall := by decide) (hk : k.IsSmall := by decide) :
    Sized tame tolerated (j.mul k) (x * y) :=
  hx.lift hy fun _ _ hm hn => Number.mul_meets hm hn hj hk

end Sized

def Divisor (tame tolerated : Prop) (s : Size) : Computed Number → Prop :=
  Meets (Overflow tame tolerated) fun d => d.Fits tame s ∧ d.isZero = false

namespace Sized

variable {tame tolerated : Prop} {x y : Computed Number} {j k : Size}

theorem div (hx : Sized tame tolerated j x) (hy : Divisor tame tolerated k y)
    (hj : j.IsSmall := by decide) (hk : k.IsSmall := by decide) :
    Sized tame tolerated .double (x / y) :=
  hx.bind fun _ hm => hy.bind fun _ hn => Number.div_meets hm hn.1 hj hk hn.2

theorem mod (hx : Sized tame tolerated j x) (hy : Divisor tame tolerated k y)
    (hj : j.IsSmall := by decide) (hk : k.IsSmall := by decide) :
    Sized tame tolerated (j.add k) (x % y) :=
  hx.bind fun _ hm => hy.bind fun _ hn => Number.mod_meets hm hn.1 hj hk hn.2

theorem lt (hx : Sized tame tolerated j x) (hy : Sized tame tolerated k y) :
    Meets (Overflow tame tolerated) (fun _ => True) (Computed.lt x y) :=
  hx.bind fun _ _ => hy.bind fun _ _ => Meets.pure trivial

theorem le (hx : Sized tame tolerated j x) (hy : Sized tame tolerated k y) :
    Meets (Overflow tame tolerated) (fun _ => True) (Computed.le x y) :=
  hx.bind fun _ _ => hy.bind fun _ _ => Meets.pure trivial

theorem ite {condition : Computed Bool}
    (h : Meets (Overflow tame tolerated) (fun _ => True) condition)
    (hx : Sized tame tolerated j x) (hy : Sized tame tolerated j y) :
    Sized tame tolerated j (condition >>= fun b => if b = true then x else y) := by
  apply h.bind
  intro b _
  cases b with
  | false => exact hy
  | true => exact hx

end Sized

end StyleValue
