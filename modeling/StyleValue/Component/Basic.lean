import StyleValue.Text.Lowercase
import StyleValue.Token.Basic

/-!
# Component values

What tokens are grouped into: a function with the values between its parentheses, a block with
those between its brackets, or a single token. A group keeps the text of its opening and closing
token, so that the text of a value is that of its tokens in order.
-/

set_option autoImplicit false

namespace StyleValue

inductive ComponentValue
  | token (token : Token)
  | function (name : String) (openSource : String) (values : List ComponentValue)
      (closeSource : String)
  | block (bracket : Bracket) (openSource : String) (values : List ComponentValue)
      (closeSource : String)

namespace ComponentValue

mutual

def source : ComponentValue → String
  | .token t => t.source
  | .function _ openSource values closeSource => openSource ++ sources values ++ closeSource
  | .block _ openSource values closeSource => openSource ++ sources values ++ closeSource

def sources : List ComponentValue → String
  | [] => ""
  | v :: vs => source v ++ sources vs

end

mutual

def same : ComponentValue → ComponentValue → Bool
  | .token s, .token t => s.kind.same t.kind
  | .function m _ vs _, .function n _ ws _ => m == n && sameList vs ws
  | .block b _ vs _, .block c _ ws _ => b == c && sameList vs ws
  | _, _ => false

def sameList : List ComponentValue → List ComponentValue → Bool
  | [], [] => true
  | v :: vs, w :: ws => same v w && sameList vs ws
  | _, _ => false

end

mutual

def describe : ComponentValue → Computed String
  | .token t => t.kind.describe
  | .function name _ values _ => do
    return "Function(name=" ++ quoted name ++ ", values=(" ++ (← describeList values) ++ "))"
  | .block bracket _ values _ => do
    return "SimpleBlock(token=" ++ (← (TokenKind.opening bracket).describe) ++ ", values=(" ++
      (← describeList values) ++ "))"

def describeList : List ComponentValue → Computed String
  | [] => .ok ""
  | [v] => do return (← describe v) ++ ","
  | [v, w] => do return (← describe v) ++ ", " ++ (← describe w)
  | v :: w :: u :: vs => do return (← describe v) ++ ", " ++ (← describeList (w :: u :: vs))

end

mutual

def decideEq : (v w : ComponentValue) → Decidable (v = w)
  | .token s, .token t =>
    if h : s = t then isTrue (by rw [h]) else isFalse (by intro e; cases e; exact h rfl)
  | .function m o vs c, .function n p ws d =>
    match decideEqList vs ws with
    | isTrue hv =>
      if h : m = n ∧ o = p ∧ c = d then isTrue (by rw [h.1, h.2.1, h.2.2, hv])
      else isFalse (by intro e; cases e; exact h ⟨rfl, rfl, rfl⟩)
    | isFalse hv => isFalse (by intro e; cases e; exact hv rfl)
  | .block m o vs c, .block n p ws d =>
    match decideEqList vs ws with
    | isTrue hv =>
      if h : m = n ∧ o = p ∧ c = d then isTrue (by rw [h.1, h.2.1, h.2.2, hv])
      else isFalse (by intro e; cases e; exact h ⟨rfl, rfl, rfl⟩)
    | isFalse hv => isFalse (by intro e; cases e; exact hv rfl)
  | .token _, .function .. => isFalse (by intro e; cases e)
  | .token _, .block .. => isFalse (by intro e; cases e)
  | .function .., .token _ => isFalse (by intro e; cases e)
  | .function .., .block .. => isFalse (by intro e; cases e)
  | .block .., .token _ => isFalse (by intro e; cases e)
  | .block .., .function .. => isFalse (by intro e; cases e)

def decideEqList : (vs ws : List ComponentValue) → Decidable (vs = ws)
  | [], [] => isTrue rfl
  | [], _ :: _ => isFalse (by intro e; cases e)
  | _ :: _, [] => isFalse (by intro e; cases e)
  | v :: vs, w :: ws =>
    match decideEq v w, decideEqList vs ws with
    | isTrue h, isTrue hs => isTrue (by rw [h, hs])
    | isFalse h, _ => isFalse (by intro e; cases e; exact h rfl)
    | _, isFalse h => isFalse (by intro e; cases e; exact h rfl)

end

instance : DecidableEq ComponentValue := decideEq

def ofKind (kind : TokenKind) : ComponentValue := .token ⟨kind, ""⟩

def kind? : ComponentValue → Option TokenKind
  | .token t => some t.kind
  | _ => none

def typeName : ComponentValue → String
  | .token t => t.kind.typeName
  | .function .. => "function"
  | .block .. => "simple-block"

def isWhitespace (v : ComponentValue) : Bool := v.kind? == some .whitespace

def isComma (v : ComponentValue) : Bool := v.kind? == some .comma

def isSubstantial (v : ComponentValue) : Bool := !v.isWhitespace && !v.isComma

def keyword? : ComponentValue → Option String
  | .token ⟨.ident name, _⟩ => some (lowercase name)
  | _ => none

/-- Only identifiers have a name. -/
theorem exists_ident_of_keyword? {v : ComponentValue} {name : String}
    (h : v.keyword? = some name) :
    ∃ written source, v = .token ⟨.ident written, source⟩ ∧ lowercase written = name := by
  unfold keyword? at h
  split at h
  · next written source => exact ⟨written, source, rfl, Option.some.inj h⟩
  · cases h

def isKeyword (v : ComponentValue) (name : String) : Bool := v.keyword? == some name

def isDelim (v : ComponentValue) (c : Char) : Bool := v.kind? == some (.delim c)

def substantial (values : List ComponentValue) : List ComponentValue := values.filter isSubstantial

end ComponentValue

end StyleValue
