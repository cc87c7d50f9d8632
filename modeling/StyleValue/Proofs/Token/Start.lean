import StyleValue.Token.Lexer

/-!
# How a token is chosen

The choice of a token by its first characters, apart from the scanning that the choice leads to.
-/

set_option autoImplicit false

namespace StyleValue

namespace Lexer

inductive Start
  | whitespace
  | quote
  | hash
  | numeral
  | commentClose
  | commentOpen
  | atKeyword
  | range
  | name
  | backslash
  | pair (kind : TokenKind)
  | lone (kind : TokenKind)

namespace Start

def of (rangesAllowed : Bool) (c : Char) (rest : List Char) : Start :=
  if isWhitespace c then .whitespace
  else if c = '"' || c = '\'' then .quote
  else if c = '#' then
    if rest.head?.any isIdent || startsEscape rest then .hash else .lone (.delim c)
  else if Numeral.starts (c :: rest) then .numeral
  else if c = '-' && rest.take 2 = ['-', '>'] then .commentClose
  else if c = '<' && rest.take 3 = ['!', '-', '-'] then .commentOpen
  else if c = '@' then if startsName rest then .atKeyword else .lone (.delim c)
  else if rangesAllowed && (c = 'U' || c = 'u') && continuesRange rest then .range
  else if startsName (c :: rest) then .name
  else if c = '\\' then .backslash
  else
    match rest.head?.bind (pair? c) with
    | some kind => .pair kind
    | none => .lone ((sign? c).getD (.delim c))

def scan (start : Start) (c : Char) (rest : List Char) : Scanned (Computed TokenKind) :=
  match start with
  | .whitespace => ⟨.ok .whitespace, rest.dropWhile isWhitespace, []⟩
  | .quote =>
    (string c rest).map fun
      | some value => .ok (.string (String.ofList value))
      | none => .ok .badString
  | .hash => (Lexer.name rest).map fun value => .ok (.hash (String.ofList value) (startsName rest))
  | .numeral => numeric (c :: rest)
  | .commentClose => ⟨.ok .commentClose, rest.drop 2, []⟩
  | .commentOpen => ⟨.ok .commentOpen, rest.drop 3, []⟩
  | .atKeyword => (Lexer.name rest).map fun value => .ok (.atKeyword (String.ofList value))
  | .range => (unicodeRange (rest.drop 1)).map .ok
  | .name => (identLike (c :: rest)).map .ok
  | .backslash => ⟨.ok (.delim c), rest, [.invalidEscape]⟩
  | .pair kind => ⟨.ok kind, rest.drop 1, []⟩
  | .lone kind => ⟨.ok kind, rest, []⟩

end Start

theorem token_eq_scan (rangesAllowed : Bool) (c : Char) (rest : List Char) :
    token rangesAllowed c rest = (Start.of rangesAllowed c rest).scan c rest := by
  simp only [token, Start.of, apply_ite fun start : Start => start.scan c rest]
  cases rest.head?.bind (pair? c) <;> rfl

end Lexer

theorem Numeral.value_fault {n : Numeral} {fault : Fault} (h : n.value = .error fault) :
    fault = .overflow := by
  unfold Numeral.value at h
  split at h
  · exact (Except.error.inj h).symm
  · split at h
    · cases h
    · split at h
      · exact (Except.error.inj h).symm
      · cases h

namespace Lexer

theorem numeric_fault {text : List Char} {fault : Fault}
    (h : (numeric text).value = .error fault) : fault = .overflow := by
  unfold numeric at h
  dsimp only at h
  split at h
  · next hvalue =>
    cases h
    exact Numeral.value_fault hvalue
  · split at h
    · cases h
    · split at h <;> cases h

/-- Only a number that is too large is no token. -/
theorem token_fault {rangesAllowed : Bool} {c : Char} {rest : List Char} {fault : Fault}
    (h : (token rangesAllowed c rest).value = .error fault) : fault = .overflow := by
  rw [token_eq_scan] at h
  cases hstart : Start.of rangesAllowed c rest <;> rw [hstart] at h
  case numeral => exact numeric_fault h
  case quote =>
    rw [Start.scan, Scanned.value_map] at h
    split at h <;> cases h
  all_goals cases h

end Lexer

end StyleValue
