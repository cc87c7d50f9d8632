import StyleValue.Text.Lowercase
import StyleValue.Token.Basic
import StyleValue.Token.Numeral
import StyleValue.Token.Quotation

/-!
# One token

The token that a text starts with, chosen by its first characters.
-/

set_option autoImplicit false

namespace StyleValue

namespace Lexer

def identLike (text : List Char) : Scanned TokenKind :=
  let scanned := (name text).map String.ofList
  match scanned.rest with
  | '(' :: rest =>
    if lowercase scanned.value = "url" then
      ((url rest).map fun
        | some value => TokenKind.url (String.ofList value)
        | none => .badUrl).after scanned.reports
    else ⟨.function scanned.value, rest, scanned.reports⟩
  | _ => scanned.map .ident

def numeric (text : List Char) : Scanned (Computed TokenKind) :=
  let (numeral, rest) := Numeral.scan text
  match numeral.value with
  | .error fault => ⟨.error fault, rest, []⟩
  | .ok x =>
    if startsName rest then
      (name rest).map fun unit => .ok (.dimension x (String.ofList unit))
    else
      match rest with
      | '%' :: rest => ⟨.ok (.percentage x), rest, []⟩
      | _ => ⟨.ok (.number x), rest, []⟩

def continuesRange : List Char → Bool
  | '+' :: c :: _ => c == '?' || isHexDigit c
  | _ => false

def unicodeRange (text : List Char) : Scanned TokenKind :=
  let digits := (text.takeWhile isHexDigit).take 6
  let afterDigits := text.drop digits.length
  let marks := (afterDigits.takeWhile (· == '?')).take (6 - digits.length)
  let rest := afterDigits.drop marks.length
  if marks.isEmpty then
    match rest with
    | '-' :: others =>
      let last := (others.takeWhile isHexDigit).take 6
      if last.isEmpty then ⟨.unicodeRange (ofHexDigits digits) (ofHexDigits digits), rest, []⟩
      else ⟨.unicodeRange (ofHexDigits digits) (ofHexDigits last), others.drop last.length, []⟩
    | _ => ⟨.unicodeRange (ofHexDigits digits) (ofHexDigits digits), rest, []⟩
  else
    ⟨.unicodeRange (ofHexDigits (digits ++ marks.map fun _ => '0'))
      (ofHexDigits (digits ++ marks.map fun _ => 'F')), rest, []⟩

def sign? : Char → Option TokenKind
  | '(' => some (.opening .parenthesis)
  | ')' => some (.closing .parenthesis)
  | '[' => some (.opening .square)
  | ']' => some (.closing .square)
  | '\x7b' => some (.opening .brace)
  | '\x7d' => some (.closing .brace)
  | ',' => some .comma
  | ':' => some .colon
  | ';' => some .semicolon
  | _ => none

def pair? : Char → Char → Option TokenKind
  | '$', '=' => some .suffixMatch
  | '*', '=' => some .substringMatch
  | '^', '=' => some .prefixMatch
  | '~', '=' => some .includeMatch
  | '|', '=' => some .dashMatch
  | '|', '|' => some .column
  | _, _ => none

def token (rangesAllowed : Bool) (c : Char) (rest : List Char) : Scanned (Computed TokenKind) :=
  let text := c :: rest
  let lone (kind : TokenKind) : Scanned (Computed TokenKind) := ⟨.ok kind, rest, []⟩
  if isWhitespace c then ⟨.ok .whitespace, rest.dropWhile isWhitespace, []⟩
  else if c = '"' || c = '\'' then
    (string c rest).map fun
      | some value => .ok (.string (String.ofList value))
      | none => .ok .badString
  else if c = '#' then
    if rest.head?.any isIdent || startsEscape rest then
      (name rest).map fun value => .ok (.hash (String.ofList value) (startsName rest))
    else lone (.delim c)
  else if Numeral.starts text then numeric text
  else if c = '-' && rest.take 2 = ['-', '>'] then ⟨.ok .commentClose, rest.drop 2, []⟩
  else if c = '<' && rest.take 3 = ['!', '-', '-'] then ⟨.ok .commentOpen, rest.drop 3, []⟩
  else if c = '@' then
    if startsName rest then (name rest).map fun value => .ok (.atKeyword (String.ofList value))
    else lone (.delim c)
  else if rangesAllowed && (c = 'U' || c = 'u') && continuesRange rest then
    (unicodeRange (rest.drop 1)).map .ok
  else if startsName text then (identLike text).map .ok
  else if c = '\\' then ⟨.ok (.delim c), rest, [.invalidEscape]⟩
  else
    match rest.head?.bind (pair? c) with
    | some kind => ⟨.ok kind, rest.drop 1, []⟩
    | none => lone ((sign? c).getD (.delim c))

end Lexer

end StyleValue
