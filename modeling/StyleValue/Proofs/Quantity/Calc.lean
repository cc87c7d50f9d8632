import StyleValue.Proofs.Component.Shown
import StyleValue.Proofs.Numeric.Size
import StyleValue.Quantity.Calc

/-!
# The grammar of calculations

A sum is made of products, a product of operands, and an operand may be a sum in parentheses. The
grammar gives the expression that values are written as, and the expression has a value if all its
operations have one. The reading of a calculation accepts just the sums that have a value. Anything
else is rejected, unless an operation overflows or the message would show an integer that is too
long for it.
-/

set_option autoImplicit false

namespace StyleValue

namespace Calc

inductive Expression
  | number (n : Number)
  | binary (op : Operator) (left right : Expression)

def Operator.sign : Operator → Char
  | .plus => '+'
  | .minus => '-'
  | .times => '*'
  | .over => '/'

def Operator.compute : Operator → Number → Number → Computed Number
  | .plus => Number.add
  | .minus => Number.sub
  | .times => Number.mul
  | .over => Number.div

namespace Expression

inductive HasValue : Expression → Number → Prop
  | number (n : Number) : HasValue (.number n) n
  | binary {op : Operator} {left right : Expression} {x y z : Number} (hleft : HasValue left x)
    (hright : HasValue right y) (hdivisor : op = .over → y.isZero = false)
    (hcompute : op.compute x y = .ok z) : HasValue (.binary op left right) z

inductive DividesByZero : Expression → Prop
  | here {right : Expression} {y : Number} (left : Expression) (hright : HasValue right y)
    (hzero : y.isZero) : DividesByZero (.binary .over left right)
  | left {op : Operator} {left : Expression} (right : Expression) (h : DividesByZero left) :
    DividesByZero (.binary op left right)
  | right {op : Operator} (left : Expression) {right : Expression} (h : DividesByZero right) :
    DividesByZero (.binary op left right)

inductive Overflows : Expression → Prop
  | here {op : Operator} {left right : Expression} {x y : Number} (hleft : HasValue left x)
    (hright : HasValue right y) (hcompute : op.compute x y = .error .overflow) :
    Overflows (.binary op left right)
  | left {op : Operator} {left : Expression} (right : Expression) (h : Overflows left) :
    Overflows (.binary op left right)
  | right {op : Operator} (left : Expression) {right : Expression} (h : Overflows right) :
    Overflows (.binary op left right)

end Expression

inductive Level
  | sum
  | product
  | operand

def Operator.level : Operator → Level
  | .plus | .minus => .sum
  | .times | .over => .product

def terms (values : List ComponentValue) : List ComponentValue :=
  values.filter fun v => !v.isWhitespace

/-- The expressions that values are written as. Operators of one level associate to the left. -/
inductive Derives (bindings : Bindings) : Level → List ComponentValue → Expression → Prop
  | number {v : ComponentValue} {n : Number} (h : v.kind? = some (.number n)) :
    Derives bindings .operand [v] (.number n)
  | percentage {v : ComponentValue} {n : Number} (h : v.kind? = some (.percentage n)) :
    Derives bindings .operand [v] (.number n)
  | dimension {v : ComponentValue} {n : Number} {unit : String}
    (h : v.kind? = some (.dimension n unit)) : Derives bindings .operand [v] (.number n)
  | bound {v : ComponentValue} {name : String} {n : Number}
    (h : v.kind? = some (.ident name)) (hbound : bindings.lookup (lowercase name) = some n) :
    Derives bindings .operand [v] (.number n)
  | nested {name openSource closeSource : String} {values : List ComponentValue} {e : Expression}
    (hname : lowercase name = "calc") (h : Derives bindings .sum (terms values) e) :
    Derives bindings .operand [.function name openSource values closeSource] e
  | parentheses {openSource closeSource : String} {values : List ComponentValue} {e : Expression}
    (h : Derives bindings .sum (terms values) e) :
    Derives bindings .operand [.block .parenthesis openSource values closeSource] e
  | factor {vs : List ComponentValue} {e : Expression} (h : Derives bindings .operand vs e) :
    Derives bindings .product vs e
  | multiply {us vs : List ComponentValue} {v : ComponentValue} {op : Operator}
    {left right : Expression} (hleft : Derives bindings .product us left)
    (hsign : v.kind? = some (.delim op.sign)) (hop : op.level = .product)
    (hright : Derives bindings .operand vs right) :
    Derives bindings .product (us ++ v :: vs) (.binary op left right)
  | summand {vs : List ComponentValue} {e : Expression} (h : Derives bindings .product vs e) :
    Derives bindings .sum vs e
  | add {us vs : List ComponentValue} {v : ComponentValue} {op : Operator}
    {left right : Expression} (hleft : Derives bindings .sum us left)
    (hsign : v.kind? = some (.delim op.sign)) (hop : op.level = .sum)
    (hright : Derives bindings .product vs right) :
    Derives bindings .sum (us ++ v :: vs) (.binary op left right)

inductive Overflows (bindings : Bindings) : List ComponentValue → Prop
  | start {us : List ComponentValue} {e : Expression} (h : Derives bindings .sum us e)
    (hover : e.Overflows) (vs : List ComponentValue) : Overflows bindings (us ++ vs)
  | nested {name openSource closeSource : String} {values : List ComponentValue}
    (hname : lowercase name = "calc") (h : Overflows bindings (terms values))
    (us vs : List ComponentValue) :
    Overflows bindings (us ++ .function name openSource values closeSource :: vs)
  | parentheses {openSource closeSource : String} {values : List ComponentValue}
    (h : Overflows bindings (terms values)) (us vs : List ComponentValue) :
    Overflows bindings (us ++ .block .parenthesis openSource values closeSource :: vs)

theorem Operator.ofValue?_eq_some_iff (v : ComponentValue) (op : Operator) :
    Operator.ofValue? v = some op ↔ v.kind? = some (.delim op.sign) := by
  unfold Operator.ofValue?
  constructor
  · intro h
    split at h
    all_goals cases h
    all_goals assumption
  · intro h
    rw [h]
    cases op <;> rfl

theorem Operator.compute_meets {tame : Prop} {x y : Number} {j k : Nat} (op : Operator)
    (hx : x.Fits tame (.bits j)) (hy : y.Fits tame (.bits k)) (hj : 1 ≤ j) (hk : 1 ≤ k)
    (hsmall : j + k ≤ 1023) (hdivisor : op = .over → y.isZero = false) :
    Meets (Overflow tame False) (Number.Fits tame (.bits (j + k))) (op.compute x y) := by
  have hj' : (Size.bits j).IsSmall := show j ≤ 1023 by omega
  have hk' : (Size.bits k).IsSmall := show k ≤ 1023 by omega
  have hgrow : max j k + 1 ≤ j + k := by omega
  cases op with
  | plus => exact (Number.add_meets hx hy hj' hk').weaken fun _ h => h.mono hgrow
  | minus => exact (Number.sub_meets hx hy hj' hk').weaken fun _ h => h.mono hgrow
  | times => exact Number.mul_meets hx hy hj' hk'
  | _ => exact (Number.div_meets hx hy hj' hk' (hdivisor rfl)).weaken fun _ h => h.of_double _

theorem Operator.apply_eq (op : Operator) (x y : Number) :
    op.apply x y = if op = .over ∧ y.isZero then reject .calcDivisionByZero
      else (op.compute x y).parsed := by
  cases op with
  | plus | minus | times => rfl
  | _ =>
    cases hzero : y.isZero
    · simp only [Operator.apply, hzero]
      rfl
    · simp [Operator.apply, hzero]

def Refusal (overflow long : Prop) : Failure → Prop
  | .rejected _ => True
  | .fault .overflow => overflow
  | .fault .tooLong => long
  | _ => False

theorem reject_refused {α : Type} {results : α → Prop} {overflow long : Prop} {cause : Rejection}
    (h : ¬ long → cause.IsShort) : Meets (Refusal overflow long) results (reject cause) := by
  rw [reject_eq]
  split
  · trivial
  next hlong => exact by_contra fun hnone => hlong (h hnone)

theorem Operator.apply_meets {left right : Expression} {x y : Number} (op : Operator)
    (hleft : left.HasValue x) (hright : right.HasValue y) (long : Prop) :
    Meets (Refusal (Expression.binary op left right).Overflows long)
      (Expression.binary op left right).HasValue (op.apply x y) := by
  rw [Operator.apply_eq]
  split
  · trivial
  next hdivisor =>
  have hdivisor' : op = .over → y.isZero = false := by
    intro hop
    simpa [hop] using hdivisor
  -- Nothing is known of the numbers, so that one digit is as good as any number of them.
  have hfits (n : Number) : n.Fits False (.bits 1) := Number.fits_of_not not_false 1 n
  have hmeets := op.compute_meets (hfits x) (hfits y) le_rfl le_rfl (by decide) hdivisor'
  cases hcompute : op.compute x y with
  | ok z => exact .binary hleft hright hdivisor' hcompute
  | error fault =>
    rw [hcompute] at hmeets
    obtain rfl : fault = .overflow := hmeets.1
    exact .here hleft hright hcompute

theorem Expression.hasValue_or (e : Expression) :
    (∃ x, e.HasValue x) ∨ e.DividesByZero ∨ e.Overflows := by
  induction e with
  | number n => exact .inl ⟨n, .number n⟩
  | binary op left right ihleft ihright =>
    obtain ⟨x, hleft⟩ | h | h := ihleft
    · obtain ⟨y, hright⟩ | h | h := ihright
      · by_cases hdivisor : op = .over ∧ y.isZero
        · obtain ⟨rfl, hzero⟩ := hdivisor
          exact .inr (.inl (.here left hright hzero))
        · have hmeets := op.apply_meets hleft hright False
          rw [Operator.apply_eq, if_neg hdivisor] at hmeets
          cases hcompute : op.compute x y with
          | ok z =>
            rw [hcompute] at hmeets
            exact .inl ⟨z, hmeets⟩
          | error fault =>
            rw [hcompute] at hmeets
            cases fault with
            | overflow => exact .inr (.inr hmeets)
            | divisionByZero | notANumber | tooLong => exact hmeets.elim
      · exact .inr (.inl (.right left h))
      · exact .inr (.inr (.right left h))
    · exact .inr (.inl (.left right h))
    · exact .inr (.inr (.left right h))

section

variable {bindings : Bindings}

def State.step (bindings : Bindings) : State → ComponentValue → Parsed State
  | .expectOperand total product, v => do
    return .expectOperator total (← apply product (← operand bindings v))
  | .expectOperator total product, v => State.operator total product v

theorem evaluateFrom_skip {v : ComponentValue} (hv : v.isWhitespace) (state : State)
    (vs : List ComponentValue) :
    evaluateFrom bindings state (v :: vs) = evaluateFrom bindings state vs := by
  rw [evaluateFrom.eq_def]
  simp only [hv, if_true]

theorem evaluateFrom_cons {v : ComponentValue} (hv : ¬ v.isWhitespace) (state : State)
    (vs : List ComponentValue) :
    evaluateFrom bindings state (v :: vs) =
      state.step bindings v >>= fun next => evaluateFrom bindings next vs := by
  rw [evaluateFrom.eq_def]
  simp only [if_neg hv]
  cases state with
  | expectOperand total product => simp only [State.step, bind_assoc, pure_bind]
  | expectOperator total product => rfl

theorem evaluateFrom_cons_of_step {v : ComponentValue} {state next : State}
    (hv : ¬ v.isWhitespace) (hstep : state.step bindings v = .ok next) (vs : List ComponentValue) :
    evaluateFrom bindings state (v :: vs) = evaluateFrom bindings next vs := by
  rw [evaluateFrom_cons hv, hstep]
  rfl

theorem evaluateFrom_terms (state : State) (values : List ComponentValue) :
    evaluateFrom bindings state (terms values) = evaluateFrom bindings state values := by
  induction values generalizing state with
  | nil => rfl
  | cons v vs ih =>
    by_cases hv : v.isWhitespace
    · rw [evaluateFrom_skip hv, ← ih state]
      simp [terms, hv]
    · have hterms : terms (v :: vs) = v :: terms vs := by simp [terms, hv]
      simp only [hterms, evaluateFrom_cons hv, ih]

theorem not_isWhitespace_of_kind? {v : ComponentValue} {kind : TokenKind} (h : v.kind? = some kind)
    (hkind : kind ≠ .whitespace) : ¬ v.isWhitespace := by
  simpa [ComponentValue.isWhitespace, h] using hkind

theorem step_factor {v : ComponentValue} {total : Option Pending} {x : Number} {op : Operator}
    (hv : v.kind? = some (.delim op.sign)) (hop : op.level = .product) :
    (State.expectOperator total x).step bindings v = .ok (.expectOperand total (some ⟨x, op⟩)) := by
  rw [State.step, State.operator, (Operator.ofValue?_eq_some_iff v op).2 hv]
  cases op with
  | plus | minus => cases hop
  | _ => rfl

theorem step_summand {v : ComponentValue} {total : Option Pending} {x : Number} {op : Operator}
    (hv : v.kind? = some (.delim op.sign)) (hop : op.level = .sum) :
    (State.expectOperator total x).step bindings v =
      apply total x >>= fun y => .ok (.expectOperand (some ⟨y, op⟩) none) := by
  rw [State.step, State.operator, (Operator.ofValue?_eq_some_iff v op).2 hv]
  cases op with
  | plus | minus => rfl
  | _ => cases hop

def Evaluates (bindings : Bindings) (values : List ComponentValue) (x : Number) : Level → Prop
  | .operand => ∃ v, values = [v] ∧ ¬ v.isWhitespace ∧ operand bindings v = .ok x
  | .product => ∀ total rest, evaluateFrom bindings (.expectOperand total none) (values ++ rest) =
      evaluateFrom bindings (.expectOperator total x) rest
  | .sum => ∃ total product, apply total product = .ok x ∧ ∀ rest,
      evaluateFrom bindings (.expectOperand none none) (values ++ rest) =
        evaluateFrom bindings (.expectOperator total product) rest

theorem Evaluates.evaluate {values : List ComponentValue} {x : Number}
    (h : Evaluates bindings (terms values) x .sum) : evaluate bindings values = .ok x := by
  obtain ⟨total, product, happly, hread⟩ := h
  rw [Calc.evaluate, ← evaluateFrom_terms, ← List.append_nil (terms values)]
  exact (hread []).trans happly

theorem Evaluates.token {v : ComponentValue} {kind : TokenKind} {x : Number}
    (hkind : v.kind? = some kind) (hspace : kind ≠ .whitespace)
    (hvalue : ∀ source, tokenValue bindings ⟨kind, source⟩ = .ok x) :
    Evaluates bindings [v] x .operand := by
  refine ⟨v, rfl, not_isWhitespace_of_kind? hkind hspace, ?_⟩
  cases v with
  | token t =>
    obtain rfl : t.kind = kind := Option.some.inj hkind
    exact hvalue t.source
  | function | block => cases hkind

theorem Operator.apply_of_compute {op : Operator} {x y z : Number}
    (hdivisor : op = .over → y.isZero = false) (hcompute : op.compute x y = .ok z) :
    op.apply x y = .ok z := by
  rw [Operator.apply_eq, if_neg, hcompute]
  · rfl
  · rintro ⟨hop, hzero⟩
    simp [hdivisor hop] at hzero

theorem Evaluates.multiply {us vs : List ComponentValue} {v : ComponentValue} {op : Operator}
    {x y z : Number} (hleft : Evaluates bindings us x .product)
    (hsign : v.kind? = some (.delim op.sign)) (hop : op.level = .product)
    (hright : Evaluates bindings vs y .operand) (happly : op.apply x y = .ok z) :
    Evaluates bindings (us ++ v :: vs) z .product := by
  intro total rest
  obtain ⟨w, rfl, hw, hoperand⟩ := hright
  have hstep : (State.expectOperand total (some ⟨x, op⟩)).step bindings w =
      .ok (.expectOperator total z) := by
    rw [State.step, hoperand]
    show (apply (some ⟨x, op⟩) y >>= fun n => _) = _
    rw [Calc.apply, happly]
    rfl
  rw [List.append_assoc, hleft, List.cons_append,
    evaluateFrom_cons_of_step (not_isWhitespace_of_kind? hsign (by simp)) (step_factor hsign hop)]
  exact evaluateFrom_cons_of_step hw hstep rest

theorem Evaluates.add {us vs : List ComponentValue} {v : ComponentValue} {op : Operator}
    {x y z : Number} (hleft : Evaluates bindings us x .sum)
    (hsign : v.kind? = some (.delim op.sign)) (hop : op.level = .sum)
    (hright : Evaluates bindings vs y .product) (happly : op.apply x y = .ok z) :
    Evaluates bindings (us ++ v :: vs) z .sum := by
  obtain ⟨total, product, hx, hread⟩ := hleft
  refine ⟨some ⟨x, op⟩, y, happly, fun rest => ?_⟩
  rw [List.append_assoc, hread, List.cons_append,
    evaluateFrom_cons (not_isWhitespace_of_kind? hsign (by simp)), step_summand hsign hop, hx]
  exact hright _ rest

theorem Derives.evaluates {level : Level} {values : List ComponentValue} {e : Expression}
    {x : Number} (h : Derives bindings level values e) (hvalue : e.HasValue x) :
    Evaluates bindings values x level := by
  induction h generalizing x with
  | number hkind | percentage hkind | dimension hkind =>
    cases hvalue
    exact .token hkind (by simp) fun _ => rfl
  | bound hkind hbound =>
    cases hvalue
    refine .token hkind (by simp) fun _ => ?_
    simp only [tokenValue, hbound]
  | nested hname _ ih =>
    refine ⟨_, rfl, by simp [ComponentValue.isWhitespace, ComponentValue.kind?], ?_⟩
    rw [operand, if_pos hname]
    exact (ih hvalue).evaluate
  | parentheses _ ih =>
    refine ⟨_, rfl, by simp [ComponentValue.isWhitespace, ComponentValue.kind?], ?_⟩
    rw [operand]
    exact (ih hvalue).evaluate
  | factor _ ih =>
    intro total rest
    obtain ⟨v, rfl, hv, hoperand⟩ := ih hvalue
    apply evaluateFrom_cons_of_step hv
    rw [State.step, hoperand]
    rfl
  | multiply _ hsign hop _ ihleft ihright =>
    cases hvalue with
    | binary hleft hright hdivisor hcompute =>
      exact .multiply (ihleft hleft) hsign hop (ihright hright)
        (Operator.apply_of_compute hdivisor hcompute)
  | summand _ ih => exact ⟨none, x, rfl, ih hvalue none⟩
  | add _ hsign hop _ ihleft ihright =>
    cases hvalue with
    | binary hleft hright hdivisor hcompute =>
      exact .add (ihleft hleft) hsign hop (ihright hright)
        (Operator.apply_of_compute hdivisor hcompute)

inductive Pends (bindings : Bindings) (level : Level) :
    Option Pending → List ComponentValue → Prop
  | nothing : Pends bindings level none []
  | operator {us : List ComponentValue} {v : ComponentValue} {e : Expression} {p : Pending}
    (h : Derives bindings level us e) (hvalue : e.HasValue p.number)
    (hsign : v.kind? = some (.delim p.operator.sign)) (hop : p.operator.level = level) :
    Pends bindings level (some p) (us ++ [v])

inductive Reads (bindings : Bindings) : State → List ComponentValue → Prop
  | beforeOperand {total product : Option Pending} {us vs : List ComponentValue}
    (htotal : Pends bindings .sum total us) (hproduct : Pends bindings .product product vs) :
    Reads bindings (.expectOperand total product) (us ++ vs)
  | afterOperand {total : Option Pending} {us vs : List ComponentValue} {e : Expression}
    {x : Number} (htotal : Pends bindings .sum total us) (h : Derives bindings .product vs e)
    (hvalue : e.HasValue x) : Reads bindings (.expectOperator total x) (us ++ vs)

theorem Overflows.append {us : List ComponentValue} (h : Overflows bindings us)
    (vs : List ComponentValue) : Overflows bindings (us ++ vs) := by
  cases h with
  | start h hover ws =>
    rw [List.append_assoc]
    exact .start h hover _
  | nested hname h us ws =>
    rw [List.append_assoc]
    exact .nested hname h us _
  | parentheses h us ws =>
    rw [List.append_assoc]
    exact .parentheses h us _

/-- What is pending and the product after it are a sum. -/
theorem Pends.sum {total : Option Pending} {us vs : List ComponentValue} {right : Expression}
    {x : Number} (h : Pends bindings .sum total us) (hright : Derives bindings .product vs right)
    (hvalue : right.HasValue x) (long : Prop) : ∃ e, Derives bindings .sum (us ++ vs) e ∧
      Meets (Refusal e.Overflows long) e.HasValue (apply total x) := by
  cases h with
  | nothing => exact ⟨right, .summand hright, hvalue⟩
  | operator hleft hvalue' hsign hop =>
    rw [List.append_assoc]
    exact ⟨_, .add hleft hsign hop hright, Operator.apply_meets _ hvalue' hvalue long⟩

/-- What is pending and the operand after it are a product. -/
theorem Pends.product {product : Option Pending} {us vs : List ComponentValue} {right : Expression}
    {x : Number} (h : Pends bindings .product product us)
    (hright : Derives bindings .operand vs right) (hvalue : right.HasValue x) (long : Prop) :
    ∃ e, Derives bindings .product (us ++ vs) e ∧
      Meets (Refusal e.Overflows long) e.HasValue (apply product x) := by
  cases h with
  | nothing => exact ⟨right, .factor hright, hvalue⟩
  | operator hleft hvalue' hsign hop =>
    rw [List.append_assoc]
    exact ⟨_, .multiply hleft hsign hop hright, Operator.apply_meets _ hvalue' hvalue long⟩

theorem Pends.overflows {total : Option Pending} {us vs : List ComponentValue} {e : Expression}
    (h : Pends bindings .sum total us) (hright : Derives bindings .product vs e)
    (hover : e.Overflows) : Overflows bindings (us ++ vs) := by
  rw [← List.append_nil (us ++ vs)]
  cases h with
  | nothing => exact .start (.summand hright) hover []
  | operator hleft _ hsign hop =>
    rw [List.append_assoc _ [_] vs]
    exact .start (.add hleft hsign hop hright) (.right _ hover) []

theorem Refusal.mono {p q long : Prop} (h : p → q) :
    ∀ failure, Refusal p long failure → Refusal q long failure
  | .rejected _, _ => trivial
  | .fault .overflow, hp => h hp
  | .fault .tooLong, hlong => hlong

def Answers (bindings : Bindings) (long : Prop) (values : List ComponentValue) :
    Parsed Number → Prop :=
  Meets (Refusal (Overflows bindings values) long)
    fun x => ∃ e, Derives bindings .sum values e ∧ e.HasValue x

variable {long : Prop}

theorem Reads.finish {state : State} {us : List ComponentValue} (h : Reads bindings state us) :
    Answers bindings long us state.finish := by
  cases h with
  | beforeOperand => trivial
  | afterOperand htotal h hvalue =>
    obtain ⟨e, hsum, hmeets⟩ := htotal.sum h hvalue long
    refine hmeets.mono (Refusal.mono fun hover => ?_) fun x hx => ⟨e, hsum, hx⟩
    simpa using Overflows.start hsum hover []

theorem reject_unexpected {α : Type} {results : α → Prop} {overflow : Prop} {v : ComponentValue}
    (hshort : ¬ long → v.OfNumbers Number.IsShort) :
    Meets (Refusal overflow long) results (reject (.unexpectedInCalc v)) :=
  reject_refused fun hnone => List.forall_mem_singleton.2 (hshort hnone)

theorem Reads.step {state : State} {us : List ComponentValue} {v : ComponentValue}
    (h : Reads bindings state us) (hshort : ¬ long → v.OfNumbers Number.IsShort)
    (hoperand : Meets (Refusal (∀ us, Overflows bindings (us ++ [v])) long)
      (fun x => ∃ e, Derives bindings .operand [v] e ∧ e.HasValue x) (operand bindings v)) :
    Meets (Refusal (Overflows bindings (us ++ [v])) long)
      (fun next => Reads bindings next (us ++ [v])) (state.step bindings v) := by
  cases h with
  | @beforeOperand total product us vs htotal hproduct =>
    rw [List.append_assoc]
    apply (hoperand.mono (Refusal.mono fun hover => List.append_assoc us vs [v] ▸ hover _)
      fun x hx => hx).bind
    rintro x ⟨e, hright, hvalue⟩
    obtain ⟨e', hderives, hmeets⟩ := hproduct.product hright hvalue long
    apply (hmeets.mono (Refusal.mono fun hover => htotal.overflows hderives hover)
      fun y hy => hy).bind
    intro y hy
    exact .afterOperand htotal hderives hy
  | @afterOperand total us vs e x htotal hderives hvalue =>
    obtain ⟨sum, hsum, hmeets⟩ := htotal.sum hderives hvalue long
    have happly : Meets (Refusal (Overflows bindings (us ++ vs ++ [v])) long) sum.HasValue
        (apply total x) :=
      hmeets.mono (Refusal.mono fun hover => .start hsum hover [v]) fun y hy => hy
    cases hsign : Operator.ofValue? v with
    | none =>
      rw [State.step, State.operator, hsign]
      exact happly.bind fun _ _ => reject_unexpected hshort
    | some op =>
      have hkind := (Operator.ofValue?_eq_some_iff v op).1 hsign
      cases hop : op.level with
      | product =>
        rw [step_factor hkind hop, List.append_assoc]
        exact .beforeOperand htotal (.operator hderives hvalue hkind hop)
      | sum =>
        rw [step_summand hkind hop]
        apply happly.bind
        intro y hy
        have hpends : Pends bindings .sum (some ⟨y, op⟩) (us ++ vs ++ [v]) :=
          .operator hsum hy hkind hop
        rw [← List.append_nil (us ++ vs ++ [v])]
        exact Reads.beforeOperand hpends .nothing
      | operand => cases op <;> cases hop

mutual

theorem operand_meets : (v : ComponentValue) → (¬ long → v.OfNumbers Number.IsShort) →
    Meets (Refusal (∀ us, Overflows bindings (us ++ [v])) long)
      (fun x => ∃ e, Derives bindings .operand [v] e ∧ e.HasValue x) (operand bindings v)
  | .token t, hshort => by
    rw [operand, tokenValue]
    split
    · next n hkind => exact ⟨_, .number (congrArg some hkind), .number n⟩
    · next n hkind => exact ⟨_, .percentage (congrArg some hkind), .number n⟩
    · next n unit hkind => exact ⟨_, .dimension (congrArg some hkind), .number n⟩
    · next name hkind =>
      split
      · next n hbound => exact ⟨_, .bound (congrArg some hkind) hbound, .number n⟩
      · exact reject_unexpected hshort
    · exact reject_unexpected hshort
  | .function name openSource values closeSource, hshort => by
    have hinside (hnone : ¬ long) := (ComponentValue.ofNumbers_function ..).1 (hshort hnone)
    rw [operand]
    split
    · next hname =>
      refine (evaluateFrom_meets values _ [] (.beforeOperand .nothing .nothing) hinside).mono
        (Refusal.mono fun hover us => .nested hname hover us []) ?_
      rintro x ⟨e, hsum, hvalue⟩
      exact ⟨e, .nested hname hsum, hvalue⟩
    · exact reject_unexpected hshort
  | .block .parenthesis openSource values closeSource, hshort => by
    have hinside (hnone : ¬ long) := (ComponentValue.ofNumbers_block ..).1 (hshort hnone)
    rw [operand]
    refine (evaluateFrom_meets values _ [] (.beforeOperand .nothing .nothing) hinside).mono
      (Refusal.mono fun hover us => .parentheses hover us []) ?_
    rintro x ⟨e, hsum, hvalue⟩
    exact ⟨e, .parentheses hsum, hvalue⟩
  | .block .square _ _ _, hshort | .block .brace _ _ _, hshort => by
    rw [operand]
    · exact reject_unexpected hshort
    · nofun

theorem evaluateFrom_meets : (vs : List ComponentValue) → (state : State) →
    (us : List ComponentValue) → Reads bindings state us →
    (¬ long → ∀ v ∈ vs, v.OfNumbers Number.IsShort) →
    Answers bindings long (us ++ terms vs) (evaluateFrom bindings state vs)
  | [], state, us, h, _ => by
    rw [terms, List.filter_nil, List.append_nil, evaluateFrom]
    exact h.finish
  | v :: vs, state, us, h, hshort => by
    have hothers (hnone : ¬ long) := (List.forall_mem_cons.1 (hshort hnone)).2
    by_cases hv : v.isWhitespace
    · have hterms : terms (v :: vs) = terms vs := by simp [terms, hv]
      rw [evaluateFrom_skip hv, hterms]
      exact evaluateFrom_meets vs state us h hothers
    · have hterms : us ++ terms (v :: vs) = (us ++ [v]) ++ terms vs := by simp [terms, hv]
      have hfirst (hnone : ¬ long) := (List.forall_mem_cons.1 (hshort hnone)).1
      rw [evaluateFrom_cons hv, hterms]
      apply ((h.step hfirst (operand_meets v hfirst)).mono
        (Refusal.mono fun hover => hover.append _) fun next hnext => hnext).bind
      intro next hnext
      exact evaluateFrom_meets vs next (us ++ [v]) hnext hothers

end

theorem evaluate_meets {values : List ComponentValue}
    (hshort : ¬ long → ∀ v ∈ values, v.OfNumbers Number.IsShort) :
    Answers bindings long (terms values) (evaluate bindings values) :=
  evaluateFrom_meets values _ [] (.beforeOperand .nothing .nothing) hshort

theorem evaluate_of_derives {values : List ComponentValue} {e : Expression} {x : Number}
    (h : Derives bindings .sum (terms values) e) (hvalue : e.HasValue x) :
    evaluate bindings values = .ok x :=
  (h.evaluates hvalue).evaluate

theorem evaluate_leftover {us : List ComponentValue} {v : ComponentValue} {e : Expression}
    {x : Number} (h : Derives bindings .sum (terms us) e) (hvalue : e.HasValue x)
    (hspace : ¬ v.isWhitespace) (hoperator : Operator.ofValue? v = none)
    (vs : List ComponentValue) :
    evaluate bindings (us ++ v :: vs) = reject (.unexpectedInCalc v) := by
  obtain ⟨total, product, happly, hread⟩ := h.evaluates hvalue
  have hterms : terms (us ++ v :: vs) = terms us ++ v :: terms vs := by simp [terms, hspace]
  rw [evaluate, ← evaluateFrom_terms, hterms, hread, evaluateFrom_cons hspace, State.step,
    State.operator, hoperator]
  show ((apply total product >>= fun _ => reject _) >>= _) = _
  rw [happly]
  exact reject_bind _ _

end

/-- A calculation has the value of the sum that it is written as, and every sum that neither
divides by zero nor overflows has one. All other calculations are rejected, unless an operation
overflows, or the calculation holds an integer that is too long for the message. -/
theorem evaluate_accepts_sums (bindings : Bindings) (values : List ComponentValue) :
    (∀ x, evaluate bindings values = .ok x ↔
      ∃ e, Derives bindings .sum (terms values) e ∧ e.HasValue x) ∧
    (∀ e, Derives bindings .sum (terms values) e → ¬ e.DividesByZero → ¬ e.Overflows →
      ∃ x, evaluate bindings values = .ok x ∧ e.HasValue x) ∧
    ∀ failure, evaluate bindings values = .error failure →
      (∃ cause, failure = .rejected cause) ∨
        failure = .fault .overflow ∧ Overflows bindings (terms values) ∨
        failure = .fault .tooLong ∧ ∃ v ∈ values, ¬ v.OfNumbers Number.IsShort := by
  have hmeets : Answers bindings (∃ v ∈ values, ¬ v.OfNumbers Number.IsShort) (terms values)
      (evaluate bindings values) := by
    apply evaluate_meets
    intro hnone v hv
    exact by_contra fun hlong => hnone ⟨v, hv, hlong⟩
  refine ⟨fun x => ⟨fun hx => ?_, ?_⟩, ?_, fun failure hfailure => ?_⟩
  · rw [hx] at hmeets
    exact hmeets
  · rintro ⟨e, hsum, hvalue⟩
    exact evaluate_of_derives hsum hvalue
  · intro e hsum hzero hover
    obtain ⟨x, hvalue⟩ := e.hasValue_or.resolve_right (not_or.2 ⟨hzero, hover⟩)
    exact ⟨x, evaluate_of_derives hsum hvalue, hvalue⟩
  · rw [hfailure] at hmeets
    match failure, hmeets with
    | .rejected cause, _ => exact .inl ⟨cause, rfl⟩
    | .fault .overflow, hover => exact .inr (.inl ⟨rfl, hover⟩)
    | .fault .tooLong, hlong => exact .inr (.inr ⟨rfl, hlong⟩)

/-- The values of `calc(1 1000...0)` with 4300 zeros are no sum, but they are not rejected. -/
theorem evaluate_long_integer : evaluate [] [.token ⟨.number (.integer 1), "1"⟩,
    .token ⟨.whitespace, " "⟩, .token ⟨.number (.integer (10 ^ 4300)),
      String.ofList ('1' :: List.replicate 4300 '0')⟩] = .error (.fault .tooLong) := by
  have hone : Derives [] .sum (terms [.token ⟨.number (.integer 1), "1"⟩,
      .token ⟨.whitespace, " "⟩]) (.number (.integer 1)) := .summand (.factor (.number rfl))
  have hlong (source : String) : ¬ (ComponentValue.token
      ⟨.number (.integer (10 ^ 4300)), source⟩).OfNumbers Number.IsShort := by
    rw [ComponentValue.ofNumbers_token]
    exact Number.not_isShort_tenPow
  apply (evaluate_leftover hone (.number _) (by decide) rfl []).trans
  exact reject_of_long fun h => hlong _ (h _ (List.mem_singleton_self _))

end Calc

end StyleValue
