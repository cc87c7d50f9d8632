import StyleValue.Proofs.Component.Single
import StyleValue.Proofs.Quantity.Moderate
import StyleValue.Proofs.Token.Stream

/-!
# Numbers of values

A value has the numbers of its tokens, and those of a text are all numbers: a numeral is rounded to
a double, or is too large for one and infinite.
-/

set_option autoImplicit false

namespace StyleValue

open ComponentValue

def Number.IsDefined (n : Number) : Prop := n ≠ .double .notANumber

theorem Double.ne_notANumber {x : Double} (h : x.isNotANumber = false) : x ≠ .notANumber := by
  rintro rfl
  cases h

theorem Double.nearest_ne_notANumber (negative : Bool) (q : Rat) :
    nearest negative q ≠ .notANumber :=
  ne_notANumber (isNotANumber_nearest negative q)

theorem Number.isDefined_double {x : Double} (h : x ≠ .notANumber) : (double x).IsDefined :=
  fun hx => h (Number.double.inj hx)

theorem Number.isDefined_integer (n : Int) : (integer n).IsDefined := nofun

theorem Decimal.toDouble_ne_notANumber (d : Decimal) : d.toDouble ≠ .notANumber := by
  unfold toDouble
  split
  · exact nofun
  · split
    · exact nofun
    · split
      · exact nofun
      · exact Double.nearest_ne_notANumber _ _

theorem Numeral.value_isDefined (n : Numeral) :
    Meets (fun _ => True) Number.IsDefined n.value := by
  unfold value
  split
  · trivial
  · split
    · next d _ =>
      split
      · exact Number.isDefined_integer _
      · exact Number.isDefined_double d.toDouble_ne_notANumber
    · split
      · trivial
      · exact nofun

namespace Lexer

theorem numeric_isDefined (text : List Char) :
    Meets (fun _ => True) (TokenKind.OfNumber Number.IsDefined) (numeric text).value := by
  have hdefined := Numeral.value_isDefined (Numeral.scan text).1
  unfold numeric
  dsimp only
  split
  · trivial
  · next hvalue =>
    rw [hvalue] at hdefined
    split
    · exact hdefined
    · split <;> exact hdefined

variable {property : Number → Prop}

theorem identLike_ofNumber (text : List Char) : (identLike text).value.OfNumber property := by
  unfold identLike
  dsimp only
  split
  · split
    · rw [Scanned.value_after, Scanned.value_map]
      split <;> trivial
    · trivial
  · trivial

theorem unicodeRange_ofNumber (text : List Char) :
    (unicodeRange text).value.OfNumber property := by
  unfold unicodeRange
  dsimp only
  split
  · split
    · split <;> trivial
    · trivial
  · trivial

theorem sign?_ofNumber (c : Char) : ((sign? c).getD (.delim c)).OfNumber property := by
  unfold sign?
  split <;> trivial

theorem pair?_ofNumber {c : Char} {rest : List Char} {kind : TokenKind}
    (h : rest.head?.bind (pair? c) = some kind) : kind.OfNumber property := by
  obtain ⟨d, -, hpair⟩ := Option.bind_eq_some_iff.1 h
  unfold pair? at hpair
  split at hpair <;> cases hpair <;> trivial

def IsDefined (scanned : Scanned (Computed TokenKind)) : Prop :=
  Meets (fun _ => True) (TokenKind.OfNumber Number.IsDefined) scanned.value

theorem IsDefined.ite {condition : Prop} [Decidable condition]
    {x y : Scanned (Computed TokenKind)} (hx : IsDefined x) (hy : IsDefined y) :
    IsDefined (if condition then x else y) := by
  split
  · exact hx
  · exact hy

theorem token_isDefined (rangesAllowed : Bool) (c : Char) (rest : List Char) :
    IsDefined (token rangesAllowed c rest) := by
  unfold token
  dsimp only
  apply IsDefined.ite
  · trivial
  apply IsDefined.ite
  · unfold IsDefined
    rw [Scanned.value_map]
    split <;> trivial
  apply IsDefined.ite
  · apply IsDefined.ite <;> trivial
  apply IsDefined.ite
  · exact numeric_isDefined _
  apply IsDefined.ite
  · trivial
  apply IsDefined.ite
  · trivial
  apply IsDefined.ite
  · apply IsDefined.ite <;> trivial
  apply IsDefined.ite
  · exact unicodeRange_ofNumber _
  apply IsDefined.ite
  · exact identLike_ofNumber _
  apply IsDefined.ite
  · trivial
  split
  · next hpair => exact pair?_ofNumber hpair
  · exact sign?_ofNumber c

end Lexer

/-- The numbers of a text are numbers. -/
theorem lex_isDefined (rangesAllowed : Bool) (cps : List CodePoint) :
    ∀ t ∈ (lex rangesAllowed cps).tokens, t.kind.OfNumber Number.IsDefined := by
  induction cps using lex_induction rangesAllowed with
  | finish cps hnext =>
    rw [lex_end hnext]
    exact List.forall_mem_nil _
  | fault cps cp others other hnext hv =>
    rw [lex_fault hnext hv]
    exact List.forall_mem_nil _
  | token cps cp others kind hnext hv ih =>
    rw [lex_token hnext hv]
    have hkind := (Lexer.token_isDefined rangesAllowed cp.char (others.map CodePoint.char)).of_ok hv
    exact List.forall_mem_cons.2 ⟨hkind, ih⟩

/-- A value that was read from a text. -/
theorem ofNumbers_of_madeOf {tokens : List Token} {v : ComponentValue} {property : Number → Prop}
    (h : ∀ t ∈ tokens, t.kind.OfNumber property) (hv : v.MadeOf tokens) :
    v.OfNumbers property := by
  obtain ⟨closers, hclosers, hflat⟩ := hv
  intro t ht
  rcases List.mem_append.1 (hflat.subset ht) with ht | ht
  · exact h t ht
  · obtain ⟨bracket, hbracket⟩ := hclosers t ht
    rw [hbracket]
    trivial

theorem ComponentValue.OfNumbers.inside {v : ComponentValue} {property : Number → Prop}
    {name openSource closeSource : String} {values : List ComponentValue}
    (h : (ComponentValue.function name openSource values closeSource).OfNumbers property)
    (hv : v ∈ values) : v.OfNumbers property := fun t ht =>
  h t (((flat_sublist_flatList hv).trans (flatList_sublist_function ..)).subset ht)

theorem ComponentValue.OfNumbers.kind {v : ComponentValue} {property : Number → Prop}
    {kind : TokenKind} (h : v.OfNumbers property) (hkind : v.kind? = some kind) :
    kind.OfNumber property := by
  cases v with
  | token t =>
    obtain rfl : t.kind = kind := Option.some.inj hkind
    exact h t (List.mem_singleton.2 rfl)
  | function | block => cases hkind

theorem Number.toDouble_isDefined {n : Number} (hn : n.IsDefined) :
    Meets (fun _ => True) (fun x => x ≠ .notANumber) n.toDouble := by
  cases n with
  | double x => exact fun hx => hn (congrArg _ hx)
  | integer n =>
    unfold toDouble
    dsimp only
    split
    · exact Double.nearest_ne_notANumber _ _
    · trivial

end StyleValue
