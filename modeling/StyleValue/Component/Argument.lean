import StyleValue.Failure

/-!
# Arguments of functions

The values between the parentheses of a function, cut at the commas, with white space left out. An
argument holds at least one value; an empty one before a comma is an error, while a comma at the
end is not.
-/

set_option autoImplicit false

namespace StyleValue

structure Argument where
  first : ComponentValue
  others : List ComponentValue
deriving DecidableEq

namespace Argument

def toList (a : Argument) : List ComponentValue := a.first :: a.others

def ofList? : List ComponentValue → Option Argument
  | [] => none
  | v :: vs => some ⟨v, vs⟩

def splitFrom (current : List ComponentValue) : List ComponentValue → Parsed (List Argument)
  | [] => .ok (ofList? current).toList
  | v :: vs =>
    if v.isComma then
      match ofList? current with
      | none => reject .emptyArgument
      | some argument => (splitFrom [] vs).map (argument :: ·)
    else if v.isWhitespace then splitFrom current vs
    else splitFrom (current ++ [v]) vs

def split (values : List ComponentValue) : Parsed (List Argument) := splitFrom [] values

end Argument

namespace ComponentValue

def contents : ComponentValue → Parsed (List ComponentValue)
  | .function _ _ values _ | .block _ _ values _ => .ok values
  | .token _ => misuse .notAGroup

def arguments : ComponentValue → Parsed (List Argument)
  | .function _ _ values _ => Argument.split values
  | _ => misuse .notAGroup

end ComponentValue

end StyleValue
