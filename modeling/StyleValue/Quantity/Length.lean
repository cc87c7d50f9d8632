import StyleValue.Failure
import StyleValue.Numeric.Arithmetic

/-!
# Lengths and percentages

A length is kept as it was written, since only the box that it is used in decides what a percentage
amounts to. A number without a unit counts as pixels.
-/

set_option autoImplicit false

namespace StyleValue

inductive Measure
  | number (value : Number)
  | dimension (value : Number) (unit : String)
  | percentage (value : Number)
deriving DecidableEq

structure LengthPercentage where
  measure : Measure
  source : String := ""
deriving DecidableEq

namespace LengthPercentage

def toToken (l : LengthPercentage) : Token :=
  match l.measure with
  | .number n => ⟨.number n, l.source⟩
  | .dimension n unit => ⟨.dimension n unit, l.source⟩
  | .percentage n => ⟨.percentage n, l.source⟩

def ofValue? : ComponentValue → Option LengthPercentage
  | .token ⟨.number n, source⟩ => some ⟨.number n, source⟩
  | .token ⟨.dimension n unit, source⟩ => some ⟨.dimension n unit, source⟩
  | .token ⟨.percentage n, source⟩ => some ⟨.percentage n, source⟩
  | _ => none

def ofValue (v : ComponentValue) : Parsed LengthPercentage :=
  match ofValue? v with
  | some l => .ok l
  | none => misuse .notALength

theorem ofValue?_toToken (l : LengthPercentage) : ofValue? (.token l.toToken) = some l := by
  rcases l with ⟨measure, source⟩
  cases measure <;> rfl

def zero : LengthPercentage := ⟨.number 0, ""⟩
def half : LengthPercentage := ⟨.percentage 50, ""⟩
def whole : LengthPercentage := ⟨.percentage 100, ""⟩

def pixelsPerUnit? : String → Option Number
  | "px" => some 1
  | "em" | "rem" | "pc" => some 16
  | "pt" => some (.double (4 / 3))
  | "in" => some 96
  | "cm" => some (.double (96 / 2.54))
  | "mm" => some (.double (96 / 25.4))
  | "q" => some (.double (96 / 101.6))
  | _ => none

def pixels (l : LengthPercentage) (parent : Number) : Computed Number :=
  match l.measure with
  | .number n => .ok n
  | .dimension n unit => n.mul ((pixelsPerUnit? (lowercase unit)).getD 1)
  | .percentage n => (n / 100 * parent : Computed Number)

end LengthPercentage

namespace ComponentValue

def isLength : ComponentValue → Bool
  | .token ⟨.number _, _⟩ | .token ⟨.dimension _ _, _⟩ => true
  | _ => false

def isLengthPercentage (v : ComponentValue) : Bool := (LengthPercentage.ofValue? v).isSome

end ComponentValue

structure LengthPair where
  horizontal : LengthPercentage
  vertical : Option LengthPercentage
deriving DecidableEq

namespace LengthPair

def ofList? : List LengthPercentage → Option LengthPair
  | [] => none
  | [l] => some ⟨l, none⟩
  | l :: m :: _ => some ⟨l, some m⟩

def ofList (lengths : List LengthPercentage) : Parsed LengthPair :=
  match ofList? lengths with
  | some p => .ok p
  | none => misuse .noLength

def toList (p : LengthPair) : List LengthPercentage := p.horizontal :: p.vertical.toList

def pixels (p : LengthPair) (width height : Number) : Computed (Number × Number) := do
  return (← p.horizontal.pixels width, ← (p.vertical.getD p.horizontal).pixels height)

end LengthPair

end StyleValue
