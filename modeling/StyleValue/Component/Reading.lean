import StyleValue.Component.Basic

/-!
# Readings

What is read of a text before a meaning is given to it: one value, all values, or the name of an
identifier.
-/

set_option autoImplicit false

namespace StyleValue

inductive Reading
  | value (value : ComponentValue)
  | values (values : List ComponentValue)
  | name (name : String)
deriving DecidableEq

def Reading.describe : Reading → Computed String
  | .value v => v.describe
  | .values vs => do
    return "[" ++ String.intercalate ", " (← vs.mapM ComponentValue.describe) ++ "]"
  | .name s => .ok (quoted s)

end StyleValue
