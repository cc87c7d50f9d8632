import StyleValue.Property.Value

/-!
# Properties

The properties whose values are parsed, each with its initial value, the way its text is read (as
one value, as a list of values, as one identifier, as a value of a type, or as a value that is kept
unparsed) and the rule that makes a value of what was read. Way and rule are chosen apart, so a
rule says what it makes of each kind of reading.
-/

set_option autoImplicit false

namespace StyleValue

inductive Mode
  | value
  | list
  | ident
  | typed (format : Option String)
  | unparsed
deriving DecidableEq

abbrev Rule : Type := Reading → Outcome PropertyValue

namespace Rule

/-- A rule for lists of values. A name counts as the list of its characters, of which none is a
value; what they make is said by the second argument. -/
def ofLists (onValues : List ComponentValue → Outcome PropertyValue)
    (onName : List Char → Outcome PropertyValue) : Rule
  | .values vs => onValues vs
  | .name name => onName name.toList
  | .value _ => .fail (.misuse .notAList)

def ofNames (onName : String → Outcome PropertyValue) : Rule
  | .name name => onName name
  | .values _ | .value _ => .fail (.misuse .notAName)

def paintOrder : Rule :=
  ofLists (fun vs => pure (.layers (PaintLayer.ofValues vs))) fun _ => pure (.layers PaintLayer.all)

def backgroundImage : Rule :=
  ofLists (fun vs => do return .images (← backgroundImages vs)) fun
    | [] => pure (.images [])
    | _ => .fail (.misuse .notAValue)

def backgroundBox : Rule :=
  ofLists (fun vs => Outcome.ofParsed ((BackgroundBox.ofValues vs).map .boxes)) fun
    | [] => pure (.boxes [])
    | _ => pure (.boxes [.borderBox])

def backgroundRepeat : Rule :=
  ofLists (fun vs => Outcome.ofParsed ((BackgroundRepeat.ofValues vs).map .repeats)) fun
    | [] => pure (.repeats [])
    | _ => pure (.repeats [.repeatBoth])

def zIndex : Rule := fun r => Outcome.ofParsed ((ZIndex.ofReading r).map .zIndex)

def visibility : Rule := ofNames fun name => pure (.visibility (Visibility.ofName name))

end Rule

structure Property where
  name : String
  initial : String
  mode : Mode
  rule : Option Rule := none
  vendorNamed : Bool := false

namespace Property

def apply (p : Property) (r : Reading) : Outcome PropertyValue :=
  match p.rule with
  | some rule => rule r
  | none => .fail (.misuse .noRule)

/-- Makes a property value of what is read of tokens. A property that lacks its rule fails before
a value or a list is read, and after an identifier is. -/
def interpret (p : Property) (tokens : List Token) : Outcome PropertyValue :=
  let stream : TokenStream := .ofTokens tokens
  match p.mode with
  | .value =>
    if p.rule.isNone then .fail (.misuse .noRule)
    else do
      let v ← TokenStream.value.run stream
      p.apply (.value v)
  | .list =>
    if p.rule.isNone then .fail (.misuse .noRule)
    else do
      let vs ← TokenStream.values.run stream
      p.apply (.values vs)
  | .ident => do
    let v ← TokenStream.value.run stream
    match v.kind? with
    | some (.ident name) => p.apply (.name name)
    | _ => p.apply (.name p.initial)
  | .typed (some "color") => do
    let v ← TokenStream.value.run stream
    return .color (← Color.ofValue v)
  | .typed (some "image") => do
    let v ← TokenStream.value.run stream
    return .image (← Image.ofValue v)
  | .typed _ => Outcome.ofParsed (reject (.unsupportedParsing p.name))
  | .unparsed => do return .unparsed (← TokenStream.value.run stream)

def parse (p : Property) (text : Option String) : Outcome PropertyValue := do
  let tokens ← (lexText (text.getD p.initial)).readAll
  p.interpret tokens

def paintOrder : Property where
  name := "paint-order"
  initial := "normal"
  mode := .list
  rule := some Rule.paintOrder

def backgroundImage : Property where
  name := "background-image"
  initial := "none"
  mode := .list
  rule := some Rule.backgroundImage

def backgroundClip : Property where
  name := "background-clip"
  initial := "border-box"
  mode := .list
  rule := some Rule.backgroundBox

def backgroundOrigin : Property where
  name := "background-origin"
  initial := "border-box"
  mode := .list
  rule := some Rule.backgroundBox

def backgroundRepeat : Property where
  name := "background-repeat"
  initial := "repeat"
  mode := .list
  rule := some Rule.backgroundRepeat

def borderColor (side : String) : Property where
  name := "border-" ++ side ++ "-color"
  initial := "transparent"
  mode := .typed (some "color")

def zIndex : Property where
  name := "z-index"
  initial := "auto"
  mode := .value
  rule := some Rule.zIndex

def visibility : Property where
  name := "visibility"
  initial := "visible"
  mode := .ident
  rule := some Rule.visibility

def lineHeight : Property where
  name := "line-height"
  initial := "normal"
  mode := .unparsed

def all : List Property := [
  paintOrder, backgroundImage, backgroundClip, backgroundOrigin, backgroundRepeat,
  borderColor "top", borderColor "right", borderColor "bottom", borderColor "left",
  zIndex, visibility, lineHeight]

def ofName? (name : String) : Option Property := all.find? fun p => p.name == name

end Property

end StyleValue
