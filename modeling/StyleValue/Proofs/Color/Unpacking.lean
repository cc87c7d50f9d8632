import Mathlib.Order.Bounds.Basic
import Mathlib.Order.Nat
import StyleValue.Proofs.Color.Alpha

/-!
# Packing undone

A byte is off by at most a half from 255 times the alpha that packed to it, and by a little for the
rounding of doubles. Hundredths are further apart than that, so no two of them have the same byte:
the hundredth that is nearest to a byte is the one that packed to it, and with fewer decimals the
search stops at that same number or not at all.
-/

set_option autoImplicit false

namespace StyleValue

namespace Double

def IsDecimal (decimals : Nat) (x : Double) : Prop := ∃ n : Int, x = ofRat (n / 10 ^ decimals)

theorem IsDecimal.mono {x : Double} {p r : Nat} (h : x.IsDecimal p) (hpr : p ≤ r) :
    x.IsDecimal r := by
  obtain ⟨n, rfl⟩ := h
  refine ⟨n * 10 ^ (r - p), congrArg ofRat ?_⟩
  rw [div_eq_div_iff (by positivity) (by positivity)]
  push_cast
  rw [mul_assoc, ← pow_add, Nat.sub_add_cancel hpr]

theorem isDecimal_zero (decimals : Nat) : (0 : Double).IsDecimal decimals :=
  ⟨0, congrArg ofRat (by simp)⟩

theorem isDecimal_one (decimals : Nat) : (1 : Double).IsDecimal decimals :=
  ⟨10 ^ decimals, congrArg ofRat (by simp)⟩

end Double

namespace Color

open Double

section

variable {x : Double} {byte : UInt8}

theorem alphaByte_of_clamp {n clamped : Number} (hn : n.isNotANumber = .ok false)
    (h : n.clamp 0 1 = clamped) (hbyte : alphaByte clamped = .ok byte) :
    alphaByte n = .ok byte := by
  rw [← alphaByte_clamp_eq hn, h, hbyte]

theorem alphaByte_zero : alphaByte 0 = .ok 0 := eq_ok_of_toOption (by decide +kernel)

theorem alphaByte_of_nonpos (hx : x.isFinite) (h : x.value ≤ 0) :
    alphaByte (.double x) = .ok 0 := by
  rcases h.lt_or_eq with hneg | hzero
  · have hlt := (Number.lt_iff (x := .double x) (y := 0) hx trivial).2 hneg
    have hle : (0 : Number).le (.double x) = false := by
      simpa using mt (Number.le_iff (x := 0) (y := .double x) trivial hx).1 (not_le.2 hneg)
    refine alphaByte_of_clamp (isNotANumber_of_isFinite hx) ?_ alphaByte_zero
    rw [Number.clamp, hle, hlt]
    rfl
  · apply alphaByte_of_near ⟨hx, hzero.ge, hzero.le.trans zero_le_one⟩
    rw [hzero]
    norm_num

theorem alphaByte_of_one_le (hx : x.isFinite) (h : 1 ≤ x.value) :
    alphaByte (.double x) = .ok 255 := by
  rcases h.lt_or_eq with hgt | hone
  · have hgt' : (((1 : Nat) : Int) : ℚ) < x.value := by exact_mod_cast hgt
    have hpos : ((0 : Nat) : Int) ≤ x.value := by
      push_cast
      linarith
    have hle : (Number.double x).le 1 = false := by
      simpa using mt (Number.le_iff (x := .double x) (y := 1) hx trivial).1 (not_le.2 hgt')
    have hlt : (Number.double x).lt 0 = false := by
      simpa using mt (Number.lt_iff (x := .double x) (y := 0) hx trivial).1 (not_lt.2 hpos)
    refine alphaByte_of_clamp (isNotANumber_of_isFinite hx) ?_ alphaByte_one
    rw [Number.clamp, hle, hlt, Bool.and_false]
    rfl
  · apply alphaByte_of_near ⟨hx, by linarith, hone.ge⟩
    show |((255 : Nat) : ℚ) - 255 * x.value| ≤ 1 / 4
    rw [← hone]
    norm_num

theorem alphaByte_infinite (negative : Bool) :
    alphaByte (.double (.infinite negative)) = .ok (if negative then 0 else 255) := by
  cases negative
  · exact alphaByte_of_clamp rfl (by decide) alphaByte_one
  · exact alphaByte_of_clamp rfl (by decide) alphaByte_zero

theorem alphaByte_ofRat_neg {q : ℚ} (hq : q < 0) : alphaByte (.double (ofRat q)) = .ok 0 := by
  have hnearest := isNearest_nearest (neg_nonneg.2 hq.le) true
  rw [← ofRat_of_neg hq] at hnearest
  rcases lt_or_ge (-q) beyond with hlt | hge
  · apply alphaByte_of_nonpos (hnearest.finite hlt)
    have hsign := (ofRat q).sign_value
    rwa [hnearest.sign, if_pos rfl] at hsign
  · rw [hnearest.infinite hge]
    exact alphaByte_infinite true

theorem alphaByte_ofRat_ge_one {q : ℚ} (hq : 1 ≤ q) : alphaByte (.double (ofRat q)) = .ok 255 := by
  have hnearest := isNearest_ofRat (zero_le_one.trans hq)
  rcases lt_or_ge q beyond with hlt | hge
  · apply alphaByte_of_one_le (hnearest.finite hlt)
    have hone := hnearest.nearest hlt 1 (by decide +kernel)
    have hsigned : signed false q = q := rfl
    rw [hsigned, value_one, abs_of_nonpos (by linarith : (1 : ℚ) - q ≤ 0)] at hone
    linarith [(abs_le.1 hone).1]
  · rw [hnearest.infinite hge]
    exact alphaByte_infinite false

end

section

variable {k m : Nat} {byte : UInt8}

theorem hundredth_bounds (hk : k ≤ 100) : (0 : ℚ) ≤ k / 100 ∧ (k : ℚ) / 100 ≤ 1 := by
  have hk' : (k : ℚ) ≤ 100 := by exact_mod_cast hk
  exact ⟨by positivity, (div_le_one (by norm_num)).2 hk'⟩

theorem isUnit_hundredth (hk : k ≤ 100) : (ofRat (k / 100)).IsUnit :=
  isUnit_ofRat (hundredth_bounds hk).1 (hundredth_bounds hk).2

theorem abs_byte_sub_hundredth_le (hk : k ≤ 100)
    (h : alphaByte (.double (ofRat (k / 100))) = .ok byte) :
    |(byte.toNat : ℚ) - 255 * (k / 100)| ≤ 1 / 2 + 1 / 10 ^ 3 := by
  have hbyte := abs_byte_sub_le (isUnit_hundredth hk) h
  have hvalue := abs_value_ofRat_sub_le (hundredth_bounds hk).1 (hundredth_bounds hk).2
  obtain ⟨hlow, hhigh⟩ := abs_le.1 hbyte
  obtain ⟨hlow', hhigh'⟩ := abs_le.1 hvalue
  rw [abs_le]
  constructor <;> linarith

theorem hundredth_eq_of_byte (hm : m ≤ 100) (hk : k ≤ 100)
    (h : alphaByte (.double (ofRat (m / 100))) = .ok byte)
    (h' : alphaByte (.double (ofRat (k / 100))) = .ok byte) : m = k := by
  obtain ⟨hlow, hhigh⟩ := abs_le.1 (abs_byte_sub_hundredth_le hm h)
  obtain ⟨hlow', hhigh'⟩ := abs_le.1 (abs_byte_sub_hundredth_le hk h')
  have hclose : |((m : Int) : ℚ) - (k : Int)| < 1 := by
    push_cast
    rw [abs_lt]
    constructor <;> linarith
  exact_mod_cast eq_of_abs_sub_lt_one hclose

/-- The hundredth nearest to the fraction of a byte is the one that has the byte. -/
theorem roundTo_two_of_hundredth (hk : k ≤ 100)
    (h : alphaByte (.double (ofRat (k / 100))) = .ok byte) :
    (byteFraction byte).roundTo 2 = ofRat (k / 100) := by
  obtain ⟨m, hround, -, hnearest⟩ := exists_roundTo_byteFraction byte 2
  obtain ⟨hlow, hhigh⟩ := abs_le.1 hnearest
  obtain ⟨hlow', hhigh'⟩ := abs_le.1 (abs_value_byteFraction_sub_le byte)
  obtain ⟨hlow'', hhigh''⟩ := abs_le.1 (abs_byte_sub_hundredth_le hk h)
  have hclose : |((m : Int) : ℚ) - (k : Int)| < 1 := by
    push_cast
    rw [abs_lt]
    constructor <;> linarith
  have hm : m = k := by exact_mod_cast eq_of_abs_sub_lt_one hclose
  rw [hround, hm]
  norm_num

theorem unpackAlpha_of_hundredth (hk : k ≤ 100)
    (h : alphaByte (.double (ofRat (k / 100))) = .ok byte) :
    unpackAlpha byte = ofRat (k / 100) := by
  have htwo : packsTo ((byteFraction byte).roundTo 2) byte := by
    rw [roundTo_two_of_hundredth hk h]
    exact (alphaByte_eq_ok_iff (isUnit_hundredth hk)).1 h
  obtain ⟨p, hp, hunpack, hpacks⟩ | ⟨-, hnone⟩ := unpackAlpha_cases byte
  · obtain ⟨m, hround, hm, -⟩ := exists_roundTo_byteFraction byte p
    -- With fewer decimals it is still a hundredth, and only one of them has the byte.
    have hhundred : 10 ^ p * 10 ^ (2 - p) = 100 := by
      rw [← pow_add, Nat.add_sub_cancel' hp]
      rfl
    have hscaled : (m : ℚ) / 10 ^ p = ((m * 10 ^ (2 - p) : Nat) : ℚ) / 100 := by
      rw [div_eq_div_iff (by positivity) (by norm_num), Nat.cast_mul, mul_assoc, mul_comm _ (_ ^ p)]
      congr 1
      exact_mod_cast hhundred.symm
    have hle : m * 10 ^ (2 - p) ≤ 100 := hhundred ▸ Nat.mul_le_mul_right _ hm
    rw [hunpack, hround, hscaled] at hpacks
    rw [hunpack, hround, hscaled,
      hundredth_eq_of_byte hle hk ((alphaByte_eq_ok_iff (isUnit_hundredth hle)).2 hpacks) h]
  · exact absurd htwo hnone

end

section

variable {x : Double} {byte : UInt8} {p : Nat}

theorem isDecimal_unpackAlpha (byte : UInt8) : (unpackAlpha byte).IsDecimal 3 := by
  have hrounded {p : Nat} (hp : p ≤ 3) : ((byteFraction byte).roundTo p).IsDecimal 3 := by
    obtain ⟨m, hround, -⟩ := exists_roundTo_byteFraction byte p
    exact IsDecimal.mono ⟨m, by rw [hround, Int.cast_natCast]⟩ hp
  obtain ⟨p, hp, hunpack, -⟩ | ⟨hunpack, -⟩ := unpackAlpha_cases byte
  · exact hunpack ▸ hrounded (hp.trans (by decide))
  · exact hunpack ▸ hrounded le_rfl

/-- An alpha of at most two decimals is unpacked again, cut down to its range. -/
theorem unpackAlpha_of_isDecimal (hx : x.IsDecimal 2) (h : alphaByte (.double x) = .ok byte) :
    unpackAlpha byte = x ∨ unpackAlpha byte = 0 ∨ unpackAlpha byte = 1 := by
  obtain ⟨n, rfl⟩ := hx
  have hhundred : (n : ℚ) / 10 ^ 2 = n / 100 := by norm_num
  rw [hhundred] at h ⊢
  rcases lt_or_ge n 0 with hneg | hnonneg
  · have hq : (n : ℚ) / 100 < 0 := div_neg_of_neg_of_pos (by exact_mod_cast hneg) (by norm_num)
    obtain rfl := Except.ok.inj ((alphaByte_ofRat_neg hq).symm.trans h)
    exact .inr (.inl (by decide +kernel))
  rcases lt_or_ge 100 n with hlarge | hle
  · have hq : (1 : ℚ) ≤ n / 100 := by
      rw [le_div_iff₀ (by norm_num)]
      exact_mod_cast hlarge.le
    obtain rfl := Except.ok.inj ((alphaByte_ofRat_ge_one hq).symm.trans h)
    exact .inr (.inr (by decide +kernel))
  · lift n to Nat using hnonneg
    rw [Int.cast_natCast] at h ⊢
    exact .inl (unpackAlpha_of_hundredth (by omega) h)

/-- As many decimals as any alpha has that packs to the byte are enough. -/
theorem isDecimal_unpackAlpha_of_byte (hp : p ≤ 3) (hx : x.IsDecimal p)
    (h : alphaByte (.double x) = .ok byte) : (unpackAlpha byte).IsDecimal p := by
  obtain rfl | htwo : p = 3 ∨ p ≤ 2 := by omega
  · exact isDecimal_unpackAlpha byte
  obtain hsame | hzero | hone := unpackAlpha_of_isDecimal (hx.mono htwo) h
  · exact hsame ▸ hx
  · exact hzero ▸ isDecimal_zero p
  · exact hone ▸ isDecimal_one p

def decimalsOf (byte : UInt8) : Set Nat :=
  {decimals | decimals ≤ 3 ∧ ∃ x : Double, x.IsDecimal decimals ∧ alphaByte (.double x) = .ok byte}

theorem exists_isLeast_decimalsOf (byte : UInt8) :
    ∃ decimals, IsLeast (decimalsOf byte) decimals ∧ (unpackAlpha byte).IsDecimal decimals := by
  classical
  have hthree : ∃ decimals, decimals ∈ decimalsOf byte :=
    ⟨3, le_rfl, unpackAlpha byte, isDecimal_unpackAlpha byte, alphaByte_unpackAlpha byte⟩
  obtain ⟨hle, x, hx, hbyte⟩ := Nat.find_spec hthree
  exact ⟨Nat.find hthree, Nat.isLeast_find hthree, isDecimal_unpackAlpha_of_byte hle hx hbyte⟩

end

def unpack (packed : Int) : Triple Number × Double :=
  let c := ofInt packed
  (⟨.integer c.red.toNat, .integer c.green.toNat, .integer c.blue.toNat⟩, unpackAlpha c.alpha)

def packNat (channels : Triple Number) (alpha : Double) : Computed Nat := do
  return (← pack channels.first channels.second channels.third (.double alpha)).toNat

theorem ofInt_toNat (c : Color) : ofInt c.toNat = c := by
  have hbyte {n : Int} {b : UInt8} (h : n % 256 = b.toNat) : UInt8.ofNat (n % 256).toNat = b := by
    rw [h, Int.toNat_natCast, UInt8.ofNat_toNat]
  have hred := c.red.toNat_lt
  have hgreen := c.green.toNat_lt
  have hblue := c.blue.toNat_lt
  have halpha := c.alpha.toNat_lt
  simp only [ofInt]
  rw [hbyte (b := c.red), hbyte (b := c.green), hbyte (b := c.blue), hbyte (b := c.alpha)]
  all_goals
    unfold toNat
    omega

/-- The bytes of channels and of an alpha of two decimals are packed without loss. -/
theorem packNat_hundredth {r g b k : Nat} (hr : r ≤ 255) (hg : g ≤ 255) (hb : b ≤ 255)
    (hk : k ≤ 100) : ∃ packed,
      packNat ⟨.integer r, .integer g, .integer b⟩ (ofRat (k / 100)) = .ok packed ∧
        unpack packed = (⟨.integer r, .integer g, .integer b⟩, ofRat (k / 100)) := by
  have halpha := alphaByte_of_isUnit (isUnit_hundredth hk)
  set byte := byteOf ⌊(ofRat (k / 100) * 255 + 0.5).value⌋
  have hunpack := unpackAlpha_of_hundredth hk halpha
  have hchannel {n : Nat} (hn : n ≤ 255) : (UInt8.ofNat n).toNat = n :=
    UInt8.toNat_ofNat_of_lt (Nat.lt_succ_of_le hn)
  have hpack := pack_bytes ⟨.ofNat r, .ofNat g, .ofNat b, byte⟩ halpha
  simp only [hchannel hr, hchannel hg, hchannel hb] at hpack
  refine ⟨toNat ⟨.ofNat r, .ofNat g, .ofNat b, byte⟩, ?_, ?_⟩
  · rw [packNat, hpack]
    rfl
  · rw [unpack, ofInt_toNat]
    simp only [hchannel hr, hchannel hg, hchannel hb, hunpack]

theorem packNat_unpack {packed : Int} (hlow : 0 ≤ packed) (hhigh : packed < 2 ^ 32) :
    (packNat (unpack packed).1 (unpack packed).2).map Nat.cast = .ok packed := by
  have hpack := pack_bytes (ofInt packed) (alphaByte_unpackAlpha (ofInt packed).alpha)
  rw [packNat, unpack, hpack]
  exact congrArg Except.ok (toNat_ofInt hlow hhigh)

/-- Packing and unpacking are inverse on channels of a byte and an alpha of two decimals, and on
packed colors; and an alpha that is unpacked has as few decimals as any of at most three that packs
to the same byte. -/
theorem pack_unpack_inverse :
    (∀ r g b k : Nat, r ≤ 255 → g ≤ 255 → b ≤ 255 → k ≤ 100 → ∃ packed,
      packNat ⟨.integer r, .integer g, .integer b⟩ (ofRat (k / 100)) = .ok packed ∧
        unpack packed = (⟨.integer r, .integer g, .integer b⟩, ofRat (k / 100))) ∧
    (∀ packed : Int, 0 ≤ packed → packed < 2 ^ 32 →
      (packNat (unpack packed).1 (unpack packed).2).map Nat.cast = .ok packed ∧
      ∃ decimals, IsLeast (decimalsOf (ofInt packed).alpha) decimals ∧
        (unpack packed).2.IsDecimal decimals) :=
  ⟨fun _ _ _ _ hr hg hb hk => packNat_hundredth hr hg hb hk,
    fun _ hlow hhigh => ⟨packNat_unpack hlow hhigh, exists_isLeast_decimalsOf _⟩⟩

/-- One tenth of 255 is a half above an integer. -/
theorem pack_unpack_inverse_tenth :
    packNat ⟨.integer 1, .integer 2, .integer 3⟩ (ofRat (10 / 100)) = .ok 0x0102031a ∧
    unpack 0x0102031a = (⟨.integer 1, .integer 2, .integer 3⟩, ofRat (10 / 100)) ∧
    (packNat (unpack 0x0102031a).1 (unpack 0x0102031a).2).map Nat.cast =
      .ok (0x0102031a : Int) := by
  obtain ⟨packed, hpack, hunpack⟩ :=
    pack_unpack_inverse.1 1 2 3 10 (by decide) (by decide) (by decide) (by decide)
  have hvalue : packNat ⟨.integer 1, .integer 2, .integer 3⟩ (ofRat (10 / 100)) =
      .ok 0x0102031a := eq_ok_of_toOption (by decide +kernel)
  obtain rfl : packed = 0x0102031a := Except.ok.inj (hpack.symm.trans hvalue)
  exact ⟨hvalue, hunpack, (pack_unpack_inverse.2 0x0102031a (by decide) (by decide)).1⟩

end Color

end StyleValue
