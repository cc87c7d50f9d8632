import StyleValue.Failure
import StyleValue.Numeric.Arithmetic

/-!
# Calculations

An expression is read once from left to right, white space left out. Operands and operators take
turns; the state between them is the total of the products that are complete, and the product that
is not. Numbers with units and percentages count as their number, identifiers as the variable of
their name, and parentheses and nested calculations as their value.
-/

set_option autoImplicit false

namespace StyleValue

abbrev Bindings : Type := List (String × Number)

namespace Calc

inductive Operator
  | plus
  | minus
  | times
  | over
deriving DecidableEq

def Operator.ofValue? (v : ComponentValue) : Option Operator :=
  match v.kind? with
  | some (.delim '+') => some .plus
  | some (.delim '-') => some .minus
  | some (.delim '*') => some .times
  | some (.delim '/') => some .over
  | _ => none

structure Pending where
  number : Number
  operator : Operator

def Operator.apply (op : Operator) (x y : Number) : Parsed Number :=
  match op with
  | .plus => x.add y
  | .minus => x.sub y
  | .times => x.mul y
  | .over => if y.isZero then reject .calcDivisionByZero else x.div y

def apply (pending : Option Pending) (x : Number) : Parsed Number :=
  match pending with
  | none => .ok x
  | some p => p.operator.apply p.number x

inductive State
  | expectOperand (total product : Option Pending)
  | expectOperator (total : Option Pending) (product : Number)

def State.finish : State → Parsed Number
  | .expectOperand _ _ => reject .calcUnfinished
  | .expectOperator total product => apply total product

def State.operator (total : Option Pending) (product : Number) (v : ComponentValue) :
    Parsed State :=
  match Operator.ofValue? v with
  | some .times => .ok (.expectOperand total (some ⟨product, .times⟩))
  | some .over => .ok (.expectOperand total (some ⟨product, .over⟩))
  | some op => do return .expectOperand (some ⟨← apply total product, op⟩) none
  | none => do
    let _ ← apply total product
    reject (.unexpectedInCalc v)

def tokenValue (bindings : Bindings) (t : Token) : Parsed Number :=
  match t.kind with
  | .number n | .percentage n | .dimension n _ => .ok n
  | .ident name =>
    match bindings.lookup (lowercase name) with
    | some n => .ok n
    | none => reject (.unexpectedInCalc (.token t))
  | _ => reject (.unexpectedInCalc (.token t))

mutual

def operand (bindings : Bindings) : ComponentValue → Parsed Number
  | .token t => tokenValue bindings t
  | .function name openSource values closeSource =>
    if lowercase name = "calc" then evaluateFrom bindings (.expectOperand none none) values
    else reject (.unexpectedInCalc (.function name openSource values closeSource))
  | .block .parenthesis _ values _ => evaluateFrom bindings (.expectOperand none none) values
  | .block bracket openSource values closeSource =>
    reject (.unexpectedInCalc (.block bracket openSource values closeSource))

def evaluateFrom (bindings : Bindings) (state : State) : List ComponentValue → Parsed Number
  | [] => state.finish
  | v :: vs =>
    if v.isWhitespace then evaluateFrom bindings state vs
    else
      match state with
      | .expectOperand total product => do
        let x ← operand bindings v
        let x ← apply product x
        evaluateFrom bindings (.expectOperator total x) vs
      | .expectOperator total product => do
        let next ← State.operator total product v
        evaluateFrom bindings next vs

end

def evaluate (bindings : Bindings) (values : List ComponentValue) : Parsed Number :=
  evaluateFrom bindings (.expectOperand none none) values

end Calc

def ComponentValue.isCalc : ComponentValue → Bool
  | .function name _ _ _ => lowercase name == "calc"
  | _ => false

end StyleValue
