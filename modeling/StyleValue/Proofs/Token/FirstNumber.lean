import StyleValue.Proofs.Token.First

/-!
# Numbers are the longest numerals

A text starts with a number, a percentage or a dimension if it starts with a numeral. The longest
one is taken, an integer if it has neither fraction nor exponent, and its value is what the numeral
denotes, rounded to 28 digits.
-/

set_option autoImplicit false

namespace StyleValue

open Grammar Lexer

variable {rangesAllowed : Bool} {cps rest : List CodePoint}

inductive BeginsNumber (rangesAllowed : Bool) (cps : List CodePoint) (p r : List Char)
    (x : Number) : Prop
  | dimension {unit value : List Char} (ident : StartsIdent r)
    (longest : IsLongest (namesOf r) unit r) (decodes : Decodes unit value)
    (begins : Begins rangesAllowed cps (p ++ unit) (.dimension x (String.ofList value)))
  | percentage (plain : ¬ StartsIdent r) (percent : r.head? = some '%')
    (begins : Begins rangesAllowed cps (p ++ ['%']) (.percentage x))
  | number (plain : ¬ StartsIdent r) (other : r.head? ≠ some '%')
    (begins : Begins rangesAllowed cps p (.number x))

theorem BeginsNumber.number? {p r : List Char} {x : Number}
    (h : BeginsNumber rangesAllowed cps p r x) :
    ∃ kind, firstKind? rangesAllowed cps = some kind ∧ kind.number? = some x := by
  cases h with
  | dimension _ _ _ begins => exact ⟨_, begins.firstKind?, rfl⟩
  | percentage _ _ begins => exact ⟨_, begins.firstKind?, rfl⟩
  | number _ _ begins => exact ⟨_, begins.firstKind?, rfl⟩

/-- The longest numeral at the start of a text makes its first token. -/
theorem begins_numeral {p r : List Char} {n : Numeral} {x : Number}
    (hrest : AfterComments cps rest) (htext : rest.map CodePoint.char = p ++ r)
    (hlong : IsLongest numeral p (p ++ r)) (hn : Numeral.Spelling n p) (hx : n.value = .ok x) :
    BeginsNumber rangesAllowed cps p r x := by
  have hstarts := Numeral.starts_spelling hn r
  have hscan := Numeral.scan_longest hlong hn
  have hp := hn.ne_nil
  obtain ⟨cp, others, rfl⟩ : ∃ cp others, rest = cp :: others := by
    cases rest with
    | nil => simp [hp] at htext
    | cons cp others => exact ⟨cp, others, rfl⟩
  rw [List.map_cons] at htext
  rw [← htext] at hstarts hscan
  have hpoints : scanPoints rangesAllowed cp others =
      numeric (cp.char :: others.map CodePoint.char) := by
    rw [scanPoints, token_eq_scan, Start.of_numeral hstarts]
    rfl
  by_cases hname : startsName r
  · obtain ⟨unit, hsplit, hunit, hdecodes⟩ := exists_longest_name r
    rw [numeric_dimension hscan hx hname] at hpoints
    have hcut : cp.char :: others.map CodePoint.char = (p ++ unit) ++ (name r).rest := by
      rw [htext, List.append_assoc, ← hsplit]
    exact .dimension (startsName_iff.1 hname) hunit hdecodes
      (begins_of_scan hrest (by rw [hpoints]; rfl) hcut (by simp [hp])
        (by rw [hpoints, Scanned.rest_map]))
  have hplain : ¬ StartsIdent r := fun h => hname (startsName_iff.2 h)
  by_cases hpercent : r.head? = some '%'
  · obtain ⟨back, rfl⟩ := List.head?_eq_some_iff.mp hpercent
    rw [numeric_percentage hscan hx] at hpoints
    have hcut : cp.char :: others.map CodePoint.char = (p ++ ['%']) ++ back := by
      rw [htext, List.append_assoc, List.singleton_append]
    exact .percentage hplain hpercent
      (begins_of_scan hrest (by rw [hpoints]) hcut (by simp) (by rw [hpoints]))
  · rw [numeric_number hscan hx (by simpa using hname) hpercent] at hpoints
    exact .number hplain hpercent
      (begins_of_scan hrest (by rw [hpoints]) htext hp (by rw [hpoints]))

theorem starts_of_number {kind : TokenKind} {x : Number} (hrest : AfterComments cps rest)
    (hfirst : firstKind? rangesAllowed cps = some kind) (hx : kind.number? = some x) :
    Numeral.starts (rest.map CodePoint.char) := by
  cases rest with
  | nil =>
    rw [firstKind?_of_end hrest] at hfirst
    cases hfirst
  | cons cp others =>
    by_contra hstarts
    rw [number?_of_not_starts ((firstKind?_of_scan hrest).1 hfirst) hstarts] at hx
    cases hx

/-- The first token of a text is a number, a percentage or a dimension if and only if the text
starts with a numeral. It takes the longest numeral, is an integer if that has neither fraction nor
exponent, and takes with it the longest name after it, decoded for the unit, or else a percent sign.
The numeral must not be an oversize integer. -/
theorem numbers_are_longest_numerals (rangesAllowed : Bool) (hrest : AfterComments cps rest)
    (hsize : ∀ p n, IsLongest numeral p (rest.map CodePoint.char) → Numeral.Spelling n p →
      ¬ n.IsOversize) :
    ((∃ kind x, firstKind? rangesAllowed cps = some kind ∧ kind.number? = some x) ↔
      ∃ p ∈ numeral, p <+: rest.map CodePoint.char) ∧
    ∀ p r, rest.map CodePoint.char = p ++ r → IsLongest numeral p (p ++ r) →
      ∃ x : Number, ((∃ k, x = .integer k) ↔ p ∈ integer) ∧
        BeginsNumber rangesAllowed cps p r x := by
  have hvalue {p r : List Char} (htext : rest.map CodePoint.char = p ++ r)
      (hlong : IsLongest numeral p (p ++ r)) :
      ∃ n x, Numeral.Spelling n p ∧ n.value = .ok x := by
    obtain ⟨n, hn⟩ := mem_numeral.1 hlong.mem
    cases hv : n.value with
    | ok x => exact ⟨n, x, hn, hv⟩
    | error fault =>
      have hoversize := ((Numeral.value_eq_error_iff hn.all_digits fault).1 hv).2
      exact absurd hoversize (hsize p n (htext ▸ hlong) hn)
  constructor
  · rw [← Numeral.starts_iff]
    constructor
    · rintro ⟨kind, x, hfirst, hx⟩
      exact starts_of_number hrest hfirst hx
    · intro hstarts
      obtain ⟨p, htext, hlong, -⟩ := Numeral.exists_longest hstarts
      obtain ⟨n, x, hn, hx⟩ := hvalue htext hlong
      have hbegins : BeginsNumber rangesAllowed cps p _ x :=
        begins_numeral hrest htext hlong hn hx
      obtain ⟨kind, hkind⟩ := hbegins.number?
      exact ⟨kind, x, hkind⟩
  · intro p r htext hlong
    obtain ⟨n, x, hn, hx⟩ := hvalue htext hlong
    refine ⟨x, ?_, begins_numeral hrest htext hlong hn hx⟩
    rw [Numeral.isInteger_of_value hx, mem_integer hn]

/-- A fraction and an exponent, and a percent sign after them. -/
theorem percentage_of_scaled_numeral : ∃ x : Number, (¬ ∃ k, x = .integer k) ∧
    Begins false (filter "/**/+1.5e3%") "+1.5e3%".toList (.percentage x) := by
  have hrest : AfterComments (filter "/**/+1.5e3%") (filter "+1.5e3%") :=
    afterComments_iff.2 (by decide +kernel)
  have hscaled {p r : List Char} (hlong : IsLongest numeral p (p ++ r)) {n : Numeral}
      (htext : (filter "+1.5e3%").map CodePoint.char = p ++ r) (hn : Numeral.Spelling n p) :
      ¬ n.isInteger := by
    obtain rfl : (Numeral.scan ((filter "+1.5e3%").map CodePoint.char)).1 = n := by
      rw [htext, Numeral.scan_longest hlong hn]
    decide +kernel
  have hstarts : Numeral.starts ((filter "+1.5e3%").map CodePoint.char) := by decide +kernel
  obtain ⟨p, htext, hlong, hn⟩ := Numeral.exists_longest hstarts
  have hr : (Numeral.scan ((filter "+1.5e3%").map CodePoint.char)).2 = ['%'] := by decide +kernel
  rw [hr] at htext hlong
  have hp : p ++ ['%'] = "+1.5e3%".toList := by
    rw [← htext]
    decide +kernel
  obtain ⟨-, hcases⟩ := numbers_are_longest_numerals false hrest fun q m hq hm => by
    obtain ⟨r, hqr⟩ := hq.isPrefix
    exact fun hoversize => hscaled (hqr ▸ hq) hqr.symm hm hoversize.1
  obtain ⟨x, hinteger, hbegins⟩ := hcases p ['%'] htext hlong
  cases hbegins with
  | dimension ident => exact absurd (startsName_iff.2 ident) (by decide)
  | percentage _ _ begins =>
    refine ⟨x, ?_, hp ▸ begins⟩
    rw [hinteger, mem_integer hn]
    exact hscaled hlong htext hn
  | number _ other => exact absurd rfl other

/-- A comment before the numeral, which the text does not start with then. -/
theorem number_after_comment :
    firstKind? false (filter "/**/1") = some (.number (.integer 1)) ∧
      ¬ ∃ p ∈ numeral, p <+: (filter "/**/1").map CodePoint.char := by
  refine ⟨by decide +kernel, ?_⟩
  rw [← Numeral.starts_iff]
  decide +kernel

/-- A numeral of fewer than 100000 digits before its exponent has the value that it denotes, rounded
to 28 significant digits. If it is an integer, that is its value, which is not rounded any further;
if not, it is rounded to the nearest double, of the sign of the numeral also where that is infinite
or zero. -/
theorem number_is_rounded_numeral (rangesAllowed : Bool) {p r : List Char} {n : Numeral}
    (hrest : AfterComments cps rest) (htext : rest.map CodePoint.char = p ++ r)
    (hlong : IsLongest numeral p (p ++ r)) (hn : Numeral.Spelling n p)
    (few : n.digits.length < 100000) :
    ∃ kind x, firstKind? rangesAllowed cps = some kind ∧ kind.number? = some x ∧
      (p ∈ integer → ∃ k : ℤ, x = .integer k ∧ (k : ℚ) = roundSignificant 28 n.denoted ∧
        ∀ m e : ℤ, n.denoted = m * 10 ^ e → |m| < 10 ^ 28 → (k : ℚ) = n.denoted) ∧
      (p ∉ integer → ∃ y : Double, x = .double y ∧
        y.IsNearest n.negative |roundSignificant 28 n.denoted| ∧
        ((∀ c ∈ n.digits, c = '0') → y = .zero n.negative)) := by
  have begins {x : Number} (hx : n.value = .ok x) : BeginsNumber rangesAllowed cps p r x :=
    begins_numeral hrest htext hlong hn hx
  rw [mem_integer hn]
  by_cases hinteger : n.isInteger
  · obtain ⟨k, hvalue, hk⟩ := Numeral.value_integer hn.all_digits few hinteger
    obtain ⟨kind, hkind, hx⟩ := (begins hvalue).number?
    refine ⟨kind, _, hkind, hx, fun _ => ⟨k, rfl, hk, ?_⟩, fun h => absurd hinteger h⟩
    intro m e hdenoted hm
    rw [hk]
    exact roundSignificant_of_few hdenoted hm
  · have hvalue := Numeral.value_double hn.all_digits few hinteger
    obtain ⟨kind, hkind, hx⟩ := (begins hvalue).number?
    have hnearest := Double.isNearest_nearest
      (roundSignificant_nonneg Decimal.precision n.magnitude_nonneg) n.negative
    refine ⟨kind, _, hkind, hx, fun h => absurd h hinteger, fun _ => ⟨_, rfl, ?_, ?_⟩⟩
    · rwa [Numeral.abs_roundSignificant_denoted]
    · intro hzeros
      rw [Numeral.magnitude_eq_zero (ofDigits_zeros hzeros), roundSignificant_zero,
        Double.nearest_zero]

/-- A zero that no exponent makes larger, with the sign of its numeral. -/
theorem zero_of_large_exponent : ∃ kind,
    firstKind? true (filter "-0.00e999999999px") = some kind ∧
      kind.number? = some (.double (.zero true)) := by
  have hstarts : Numeral.starts ((filter "-0.00e999999999px").map CodePoint.char) := by
    decide +kernel
  obtain ⟨p, htext, hlong, hn⟩ := Numeral.exists_longest hstarts
  have hrest : AfterComments (filter "-0.00e999999999px") (filter "-0.00e999999999px") :=
    afterComments_iff.2 (by decide +kernel)
  obtain ⟨kind, x, hfirst, hx, -, hdouble⟩ :=
    number_is_rounded_numeral true hrest htext hlong hn (by decide +kernel)
  obtain ⟨y, rfl, -, hzero⟩ := hdouble (by
    rw [mem_integer hn]
    decide +kernel)
  refine ⟨kind, hfirst, ?_⟩
  have hzeros : (Numeral.scan ((filter "-0.00e999999999px").map CodePoint.char)).1.digits.all
      (· == '0') := by decide +kernel
  rw [hx, hzero fun c hc => beq_iff_eq.1 (List.all_eq_true.1 hzeros c hc)]
  congr

end StyleValue
