import StyleValue.Component.Reading
import StyleValue.Numeric.Fault

/-!
# Failures

Why a value is refused, each cause with the values that its message shows. Malformed text is not
among them: it is reported and repaired. What fails is text that has no meaning, a fault of a
computation or of the message, or an operation asked for where it does not apply.
-/

set_option autoImplicit false

namespace StyleValue

inductive Rejection
  | noValue
  | surplusValue
  | emptyArgument
  | notAnAngle (value : ComponentValue)
  | unrecognizedSide (clause : String)
  | unexpectedInPosition (value : ComponentValue)
  | positionTooLong
  | calcUnfinished
  | calcDivisionByZero
  | unexpectedInCalc (value : ComponentValue)
  | relativeSyntax
  | notOneAlpha
  | tooManyComponents (count : Nat)
  | wrongComponents (expected : Int) (found : Nat)
  | notANumber (value : ComponentValue)
  | notAHue (value : ComponentValue)
  | unsupportedSpace (value : ComponentValue)
  | unexpectedInRelative (value : ComponentValue)
  | noSpace
  | unexpectedInShape (value : ComponentValue)
  | noGradientType
  | invalidZIndex (reading : Reading)
  | unsupportedParsing (property : String)
deriving DecidableEq

def Rejection.message : Rejection → Computed String
  | .noValue => .ok "Expected a component value, found end of input"
  | .surplusValue => .ok "Expected a single component value, found more"
  | .emptyArgument => .ok "Error parsing function args, zero tokens for arg"
  | .notAnAngle v => do return "Expected an angle, found " ++ (← v.describe)
  | .unrecognizedSide clause => .ok ("Unrecognized side or corner " ++ quoted clause)
  | .unexpectedInPosition v => do return "Unexpected " ++ (← v.describe) ++ " in position"
  | .positionTooLong => .ok "Positions of more than two components are not supported"
  | .calcUnfinished => .ok "Unexpected end of calc() expression"
  | .calcDivisionByZero => .ok "Division by zero in calc() expression"
  | .unexpectedInCalc v => do return "Unexpected " ++ (← v.describe) ++ " in calc() expression"
  | .relativeSyntax => .ok "Relative color syntax is only supported by the `color()` function"
  | .notOneAlpha => .ok "Expected a single alpha value after `/`"
  | .tooManyComponents count => .ok ("Too many color components: " ++ Nat.repr count)
  -- The count is the caller's and not of the text: it is written however long it is.
  | .wrongComponents expected found =>
    .ok ("Expected " ++ Int.repr expected ++ " color components, found " ++ Nat.repr found)
  | .notANumber v => do return "Expected a number or a percentage, found " ++ (← v.describe)
  | .notAHue v => do return "Expected a hue, found " ++ (← v.describe)
  | .unsupportedSpace v => do return "Unsupported color space " ++ (← v.describe)
  | .unexpectedInRelative v => do return "Unexpected " ++ (← v.describe) ++ " in relative color"
  | .noSpace => .ok "Expected a color space in color()"
  | .unexpectedInShape v => do
    return "Unexpected " ++ (← v.describe) ++ " in radial gradient shape"
  | .noGradientType => .ok "Expected `linear` or `radial` for type of -webkit-gradient()"
  | .invalidZIndex r => do return "Invalid z-index " ++ (← r.describe)
  | .unsupportedParsing property => .ok ("Unsupported parsing of " ++ quoted property)

inductive UnsupportedColor
  | function (name : String)
  | origin (name : String)
deriving DecidableEq

def UnsupportedColor.message : UnsupportedColor → String
  | .function name => "Attempting to parse an unsupported color function \"" ++ name ++ "\""
  | .origin name => "Unsupported origin color function " ++ quoted name

inductive UnsupportedImage
  | function (name : String)
  | value (typeName : String)
deriving DecidableEq

def UnsupportedImage.message : UnsupportedImage → String
  | .function name => "Attempting to parse an unsupported image function \"" ++ name ++ "\""
  | .value typeName => "Unsupported image type " ++ typeName

inductive Misuse
  | endOfInput
  | noRule
  /-- The values inside of a value that holds none, or the arguments of what is no function. -/
  | notAGroup
  | notALength
  | noLength
  /-- A value is to be counted from the end of a list that is too short. -/
  | noSuchValue
  | notAList
  | notAName
  | notAValue
deriving DecidableEq

inductive Failure
  | rejected (cause : Rejection)
  | unsupportedColor (cause : UnsupportedColor)
  | unsupportedImage (cause : UnsupportedImage)
  | fault (cause : Fault)
  | misuse (cause : Misuse)
deriving DecidableEq

def Failure.message? : Failure → Option String
  | .rejected cause => cause.message.toOption
  | .unsupportedColor cause => some cause.message
  | .unsupportedImage cause => some cause.message
  | .fault _ | .misuse _ => none

abbrev Parsed (α : Type) : Type := Except Failure α

def Computed.parsed {α : Type} : Computed α → Parsed α
  | .ok a => .ok a
  | .error fault => .error (.fault fault)

instance {α : Type} : Coe (Computed α) (Parsed α) := ⟨Computed.parsed⟩

instance : MonadLift (Except Fault) (Except Failure) := ⟨Computed.parsed⟩

@[simp] theorem Computed.parsed_ok {α : Type} (a : α) :
    Computed.parsed (.ok a : Computed α) = .ok a := rfl

/-- Refuses a value. The message is made first, and where it cannot be made, that is the failure. -/
def reject {α : Type} (cause : Rejection) : Parsed α :=
  match cause.message with
  | .ok _ => .error (.rejected cause)
  | .error fault => .error (.fault fault)

def misuse {α : Type} (cause : Misuse) : Parsed α := .error (.misuse cause)

end StyleValue
