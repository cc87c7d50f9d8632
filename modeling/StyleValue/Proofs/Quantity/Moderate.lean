import StyleValue.Proofs.Component.Single
import StyleValue.Proofs.Quantity.Calc

/-!
# Calculations on moderate numbers

The value of an expression has at most as many binary digits as its operands together, if it is an
integer at all. Text is moderate if its integers are small enough for that: then no calculation in
it overflows.
-/

set_option autoImplicit false

namespace StyleValue

open ComponentValue

variable {tame : Prop} {bits : Nat}

instance [Decidable tame] : (s : Size) → (n : Number) → Decidable (n.Fits tame s)
  | .double, .double _ | .bits _, .double _ => instDecidableTrue
  | .double, .integer _ => instDecidableFalse
  | .bits k, .integer n => inferInstanceAs (Decidable (tame → n.natAbs < 2 ^ k))

namespace TokenKind

def Fits (tame : Prop) (bits : Nat) : TokenKind → Prop
  | .number n | .percentage n | .dimension n _ => n.Fits tame (.bits bits)
  | _ => True

instance [Decidable tame] (kind : TokenKind) : Decidable (kind.Fits tame bits) := by
  cases kind <;> unfold Fits <;> infer_instance

def isOperand : TokenKind → Bool
  | .number _ | .percentage _ | .dimension _ _ | .ident _ => true
  | _ => false

def isCalc : TokenKind → Bool
  | .function name => lowercase name == "calc"
  | _ => false

end TokenKind

def operandCount (tokens : List Token) : Nat := tokens.countP fun t => t.kind.isOperand

structure Moderate (tame : Prop) (bits : Nat) (tokens : List Token) : Prop where
  fits : ∀ t ∈ tokens, t.kind.Fits tame bits
  few : tame → (∃ t ∈ tokens, t.kind.isCalc) → bits * operandCount tokens ≤ 1000

namespace Moderate

instance [Decidable tame] (tokens : List Token) : Decidable (Moderate tame bits tokens) :=
  decidable_of_iff ((∀ t ∈ tokens, t.kind.Fits tame bits) ∧
    (tame → (∃ t ∈ tokens, t.kind.isCalc) → bits * operandCount tokens ≤ 1000))
    ⟨fun h => ⟨h.1, h.2⟩, fun h => ⟨h.fits, h.few⟩⟩

variable {ts us : List Token}

theorem sublist (h : Moderate tame bits us) (hsub : ts.Sublist us) : Moderate tame bits ts where
  fits t ht := h.fits t (hsub.subset ht)
  few htame := by
    rintro ⟨t, ht, hcalc⟩
    have hcount : operandCount ts ≤ operandCount us := hsub.countP_le
    exact (Nat.mul_le_mul_left bits hcount).trans (h.few htame ⟨t, hsub.subset ht, hcalc⟩)

theorem append_closers (h : Moderate tame bits ts) {closers : List Token}
    (hclosers : ∀ t ∈ closers, ∃ bracket, t.kind = .closing bracket) :
    Moderate tame bits (ts ++ closers) where
  fits t ht := by
    rcases List.mem_append.1 ht with ht | ht
    · exact h.fits t ht
    · obtain ⟨bracket, hkind⟩ := hclosers t ht
      rw [hkind]
      trivial
  few htame := by
    have hnone : operandCount closers = 0 := by
      rw [operandCount, List.countP_eq_zero]
      intro t ht
      obtain ⟨bracket, hkind⟩ := hclosers t ht
      simp [hkind, TokenKind.isOperand]
    rintro ⟨t, ht, hcalc⟩
    rcases List.mem_append.1 ht with ht | ht
    · have hcount : operandCount (ts ++ closers) = operandCount ts + operandCount closers :=
        List.countP_append
      rw [hcount, hnone]
      exact h.few htame ⟨t, ht, hcalc⟩
    · obtain ⟨bracket, hkind⟩ := hclosers t ht
      simp [hkind, TokenKind.isCalc] at hcalc

theorem madeOf {v : ComponentValue} (h : Moderate tame bits ts) (hv : v.MadeOf ts) :
    Moderate tame bits (flat v) := by
  obtain ⟨closers, hclosers, hflat⟩ := hv
  exact (h.append_closers hclosers).sublist hflat

end Moderate

theorem ComponentValue.flat_sublist_flatList {v : ComponentValue} {vs : List ComponentValue}
    (h : v ∈ vs) : (flat v).Sublist (flatList vs) := by
  induction vs with
  | nil => cases h
  | cons w vs ih =>
    rw [flatList]
    rcases List.mem_cons.1 h with rfl | h
    · exact List.sublist_append_left _ _
    · exact (ih h).trans (List.sublist_append_right _ _)

theorem ComponentValue.flatList_sublist_function (name openSource closeSource : String)
    (values : List ComponentValue) :
    (flatList values).Sublist (flat (.function name openSource values closeSource)) := by
  rw [flat]
  exact (List.sublist_append_left _ _).trans (List.sublist_cons_self _ _)

theorem ComponentValue.flatList_sublist_block (bracket : Bracket) (openSource closeSource : String)
    (values : List ComponentValue) :
    (flatList values).Sublist (flat (.block bracket openSource values closeSource)) := by
  rw [flat]
  exact (List.sublist_append_left _ _).trans (List.sublist_cons_self _ _)

theorem ComponentValue.flatList_singleton_sublist {v : ComponentValue} {vs : List ComponentValue}
    (h : v ∈ vs) : (flatList [v]).Sublist (flatList vs) := by
  rw [flatList_singleton]
  exact flat_sublist_flatList h

theorem ComponentValue.flatList_filter_sublist (p : ComponentValue → Bool)
    (vs : List ComponentValue) : (flatList (vs.filter p)).Sublist (flatList vs) := by
  induction vs with
  | nil => exact List.Sublist.refl _
  | cons v vs ih =>
    rw [List.filter_cons]
    split
    · exact (List.Sublist.refl _).append ih
    · exact ih.trans (List.sublist_append_right _ _)

namespace Calc

namespace Expression

def operands : Expression → Nat
  | .number _ => 1
  | .binary _ left right => left.operands + right.operands

def AllFit (tame : Prop) (bits : Nat) : Expression → Prop
  | .number n => n.Fits tame (.bits bits)
  | .binary _ left right => left.AllFit tame bits ∧ right.AllFit tame bits

theorem operands_pos (e : Expression) : 1 ≤ e.operands := by
  induction e with
  | number n => exact le_rfl
  | binary op left right ihleft ihright =>
    rw [operands]
    omega

theorem operands_binary (bits : Nat) (op : Operator) (left right : Expression) :
    bits * (Expression.binary op left right).operands =
      bits * left.operands + bits * right.operands := Nat.mul_add _ _ _

theorem HasValue.fits {e : Expression} {x : Number} (h : e.HasValue x) (he : e.AllFit tame bits)
    (hbits : 1 ≤ bits) (hfew : bits * e.operands ≤ 1000) :
    x.Fits tame (.bits (bits * e.operands)) := by
  induction h with
  | number n => exact (Nat.mul_one bits).symm ▸ he
  | @binary op left right x y z hleft hright hdivisor hcompute ihleft ihright =>
    rw [operands_binary] at hfew ⊢
    have hmeets := op.compute_meets (ihleft he.1 (by omega)) (ihright he.2 (by omega))
      (Nat.mul_pos hbits left.operands_pos) (Nat.mul_pos hbits right.operands_pos) (by omega)
      hdivisor
    rw [hcompute] at hmeets
    exact hmeets

theorem not_isZero_of_overflow {op : Operator} {x y : Number}
    (h : op.compute x y = .error .overflow) (hop : op = .over) : y.isZero = false := by
  subst hop
  by_contra hzero
  rw [Bool.not_eq_false] at hzero
  simp [Operator.compute, Number.div, hzero] at h

theorem Overflows.not_tame {e : Expression} (h : e.Overflows) (he : e.AllFit tame bits)
    (hbits : 1 ≤ bits) (hfew : bits * e.operands ≤ 1000) : ¬ tame := by
  induction h with
  | @here op left right x y hleft hright hcompute =>
    rw [operands_binary] at hfew
    have hmeets := op.compute_meets (hleft.fits he.1 hbits (by omega))
      (hright.fits he.2 hbits (by omega)) (Nat.mul_pos hbits left.operands_pos)
      (Nat.mul_pos hbits right.operands_pos) (by omega) (not_isZero_of_overflow hcompute)
    rw [hcompute] at hmeets
    exact hmeets.2
  | left right h ih =>
    rw [operands_binary] at hfew
    exact ih he.1 (by omega)
  | right left h ih =>
    rw [operands_binary] at hfew
    exact ih he.2 (by omega)

end Expression

theorem operandCount_append (ts us : List Token) :
    operandCount (ts ++ us) = operandCount ts + operandCount us := List.countP_append

theorem flatList_terms_sublist_function (name openSource closeSource : String)
    (values : List ComponentValue) : (flatList (terms values)).Sublist
      (flatList [.function name openSource values closeSource]) := by
  rw [flatList_singleton]
  exact (flatList_filter_sublist _ values).trans (flatList_sublist_function ..)

theorem flatList_terms_sublist_block (bracket : Bracket) (openSource closeSource : String)
    (values : List ComponentValue) : (flatList (terms values)).Sublist
      (flatList [.block bracket openSource values closeSource]) := by
  rw [flatList_singleton]
  exact (flatList_filter_sublist _ values).trans (flatList_sublist_block ..)

theorem flat_of_kind? {v : ComponentValue} {kind : TokenKind} (h : v.kind? = some kind) :
    ∃ source, flatList [v] = [⟨kind, source⟩] := by
  cases v with
  | token t =>
    obtain rfl : t.kind = kind := Option.some.inj h
    exact ⟨t.source, rfl⟩
  | function | block => cases h

variable {bindings : Bindings} (hbindings : ∀ b ∈ bindings, b.2.Fits tame (.bits bits))
include hbindings

theorem fits_of_lookup {name : String} {n : Number} (h : bindings.lookup name = some n) :
    n.Fits tame (.bits bits) := by
  obtain ⟨before, after, rfl, -⟩ := List.lookup_eq_some_iff.1 h
  exact hbindings (name, n) (by simp)

/-- The operands of an expression are tokens of the values that it is written as. -/
theorem Derives.allFit {level : Level} {values : List ComponentValue} {e : Expression}
    (h : Derives bindings level values e)
    (hfits : ∀ t ∈ flatList values, t.kind.Fits tame bits) :
    e.AllFit tame bits ∧ e.operands ≤ operandCount (flatList values) := by
  induction h with
  | number hkind | percentage hkind | dimension hkind =>
    obtain ⟨source, hflat⟩ := flat_of_kind? hkind
    rw [hflat] at hfits ⊢
    have hnumber := hfits _ (List.mem_singleton.2 rfl)
    exact ⟨hnumber, le_rfl⟩
  | bound hkind hbound =>
    obtain ⟨source, hflat⟩ := flat_of_kind? hkind
    rw [hflat]
    exact ⟨fits_of_lookup hbindings hbound, le_rfl⟩
  | @nested name openSource closeSource values e hname h ih =>
    have hsub := flatList_terms_sublist_function name openSource closeSource values
    obtain ⟨hall, hcount⟩ := ih fun t ht => hfits t (hsub.subset ht)
    exact ⟨hall, hcount.trans hsub.countP_le⟩
  | @parentheses openSource closeSource values e h ih =>
    have hsub := flatList_terms_sublist_block .parenthesis openSource closeSource values
    obtain ⟨hall, hcount⟩ := ih fun t ht => hfits t (hsub.subset ht)
    exact ⟨hall, hcount.trans hsub.countP_le⟩
  | factor _ ih | summand _ ih => exact ih hfits
  | @multiply us vs v op left right _ _ _ _ ihleft ihright
  | @add us vs v op left right _ _ _ _ ihleft ihright =>
    rw [flatList_append, flatList] at hfits ⊢
    obtain ⟨hleft, hl⟩ := ihleft fun t ht => hfits t (by simp [ht])
    obtain ⟨hright, hr⟩ := ihright fun t ht => hfits t (by simp [ht])
    refine ⟨⟨hleft, hright⟩, ?_⟩
    rw [operandCount_append, operandCount_append, Expression.operands]
    omega

theorem Overflows.not_tame {values : List ComponentValue} (h : Overflows bindings values)
    (hfits : ∀ t ∈ flatList values, t.kind.Fits tame bits) (hbits : 1 ≤ bits)
    (hfew : bits * operandCount (flatList values) ≤ 1000) : ¬ tame := by
  induction h with
  | @start us e h hover vs =>
    have hsub : (flatList us).Sublist (flatList (us ++ vs)) := by
      rw [flatList_append]
      exact List.sublist_append_left _ _
    obtain ⟨hall, hcount⟩ := h.allFit hbindings fun t ht => hfits t (hsub.subset ht)
    apply hover.not_tame hall hbits
    exact (Nat.mul_le_mul_left bits (hcount.trans hsub.countP_le)).trans hfew
  | @nested name openSource closeSource values hname h us vs ih =>
    have hsub := (flatList_terms_sublist_function name openSource closeSource values).trans
      (flatList_singleton_sublist (List.mem_append_right us (List.mem_cons_self (l := vs))))
    exact ih (fun t ht => hfits t (hsub.subset ht))
      ((Nat.mul_le_mul_left bits hsub.countP_le).trans hfew)
  | @parentheses openSource closeSource values h us vs ih =>
    have hsub := (flatList_terms_sublist_block .parenthesis openSource closeSource values).trans
      (flatList_singleton_sublist (List.mem_append_right us (List.mem_cons_self (l := vs))))
    exact ih (fun t ht => hfits t (hsub.subset ht))
      ((Nat.mul_le_mul_left bits hsub.countP_le).trans hfew)

/-- A calculation on moderate numbers has a moderate value, or is rejected. -/
theorem evaluate_moderate {long : Prop} {values : List ComponentValue} (hbits : 1 ≤ bits)
    (hfits : ∀ t ∈ flatList values, t.kind.Fits tame bits)
    (hfew : tame → bits * operandCount (flatList values) ≤ 1000)
    (hshort : ¬ long → ∀ v ∈ values, v.OfNumbers Number.IsShort) :
    Meets (Refusal (¬ tame) long) (Number.Fits tame (.bits 1000)) (evaluate bindings values) := by
  have hsub : (flatList (terms values)).Sublist (flatList values) :=
    flatList_filter_sublist _ values
  have hfits' : ∀ t ∈ flatList (terms values), t.kind.Fits tame bits :=
    fun t ht => hfits t (hsub.subset ht)
  have hfew' (htame : tame) : bits * operandCount (flatList (terms values)) ≤ 1000 :=
    (Nat.mul_le_mul_left bits hsub.countP_le).trans (hfew htame)
  apply (evaluate_meets hshort).mono
  · apply Refusal.mono
    intro hover htame
    exact hover.not_tame hbindings hfits' hbits (hfew' htame) htame
  · rintro x ⟨e, hsum, hvalue⟩
    obtain ⟨hall, hcount⟩ := hsum.allFit hbindings hfits'
    by_cases htame : tame
    · have hsmall := (Nat.mul_le_mul_left bits hcount).trans (hfew' htame)
      exact (hvalue.fits hall hbits hsmall).mono hsmall
    · exact Number.fits_of_not htame 1000 x

end Calc

end StyleValue
