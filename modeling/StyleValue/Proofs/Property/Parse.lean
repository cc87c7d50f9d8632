import StyleValue.Proofs.Component.Entry
import StyleValue.Proofs.Outcome
import StyleValue.Proofs.Token.Stream
import StyleValue.Property.Basic

/-!
# From the text of a property to its values

The text of a property is cut into tokens first, which fails if a number is too large to be read.
Rules are then given the values that the tokens are grouped into: all of them, or the one value that
they are.
-/

set_option autoImplicit false

namespace StyleValue

open Outcome TokenStream

namespace Property

variable (p : Property) (text : Option String)

/-- A number that is too large to be read fails any property. -/
theorem parse_of_fault {fault : Fault} (h : (lexText (text.getD p.initial)).fault = some fault) :
    p.parse text =
      ⟨lexicalEvents (lexText (text.getD p.initial)).allReports, .error (.fault .overflow)⟩ := by
  obtain rfl := fault_of_lex h
  have hread : (lexText (text.getD p.initial)).readAll.result = .error (.fault .overflow) := by
    simp [readAll, h]
  rw [parse, bind_of_error hread]
  rfl

theorem parse_of_tokens (h : (lexText (text.getD p.initial)).fault = none) :
    p.parse text = (p.interpret (lexText (text.getD p.initial)).tokens).after
      (lexicalEvents (lexText (text.getD p.initial)).allReports) := by
  have hread : (lexText (text.getD p.initial)).readAll.result =
      .ok (lexText (text.getD p.initial)).tokens := by
    simp [readAll, h]
  rw [parse, bind_of_ok hread]
  rfl

def ofTextValues (text : String) (f : List ComponentValue → Parsed PropertyValue) :
    Parsed PropertyValue :=
  match (lexText text).fault with
  | some _ => .error (.fault .overflow)
  | none => f (Grouping.completed [] (lexText text).tokens)

theorem result_parse (text : String) {f : List ComponentValue → Parsed PropertyValue}
    (h : ∀ tokens, (p.interpret tokens).result = f (Grouping.completed [] tokens)) :
    (p.parse (some text)).result = ofTextValues text f := by
  rw [ofTextValues]
  cases hfault : (lexText text).fault with
  | some fault => rw [parse_of_fault p (some text) hfault]
  | none =>
    rw [parse_of_tokens p (some text) hfault]
    exact h _

variable {p}

theorem result_interpret_list {rule : Rule} (hmode : p.mode = .list) (hrule : p.rule = some rule)
    (tokens : List Token) :
    (p.interpret tokens).result = (rule (.values (Grouping.completed [] tokens))).result := by
  have hvalues := values_offers (offers_ofTokens tokens)
  simp only [interpret, hmode, hrule, apply, Option.isNone_some, Bool.false_eq_true, if_false]
  rw [bind_of_ok hvalues]
  rfl

end Property

end StyleValue
