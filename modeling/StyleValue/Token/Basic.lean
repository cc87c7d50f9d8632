import StyleValue.Numeric.Written
import StyleValue.Text.Quoted

/-!
# Tokens

What text is cut into: names, numbers, strings, brackets and signs. A token is its kind, with the
value that the kind carries, and the text that it was formed from. Two tokens have the same meaning
when their kinds agree, whatever that text.
-/

set_option autoImplicit false

namespace StyleValue

inductive Bracket
  | parenthesis
  | square
  | brace
deriving DecidableEq

inductive TokenKind
  | ident (name : String)
  | function (name : String)
  | atKeyword (name : String)
  | hash (name : String) (isIdentifier : Bool)
  | string (value : String)
  | badString
  | url (value : String)
  | badUrl
  | delim (char : Char)
  | number (value : Number)
  | percentage (value : Number)
  | dimension (value : Number) (unit : String)
  | unicodeRange (first last : Nat)
  | whitespace
  | commentOpen
  | commentClose
  | colon
  | semicolon
  | comma
  | column
  | includeMatch
  | dashMatch
  | prefixMatch
  | suffixMatch
  | substringMatch
  | opening (bracket : Bracket)
  | closing (bracket : Bracket)
deriving DecidableEq

structure Token where
  kind : TokenKind
  /-- The unfiltered text; empty for a token that no text was the source of. -/
  source : String := ""
deriving DecidableEq

namespace Bracket

def name : Bracket → String
  | .parenthesis => "paren"
  | .square => "bracket"
  | .brace => "brace"

def title : Bracket → String
  | .parenthesis => "Paren"
  | .square => "Bracket"
  | .brace => "Brace"

end Bracket

def Number.matches : Number → Number → Bool
  | .integer m, .integer n => m == n
  | .double x, .double y => (Number.double x).equal (.double y)
  | _, _ => false

def Number.flagText : Number → String
  | .integer _ => "<TokenFlag.INTEGER: 4>"
  | .double _ => "<TokenFlag.NUMBER: 8>"

namespace TokenKind

def typeName : TokenKind → String
  | .ident _ => "ident"
  | .function _ => "function-token"
  | .atKeyword _ => "at-keyword"
  | .hash _ _ => "hash"
  | .string _ => "string"
  | .badString => "bad-string"
  | .url _ => "url"
  | .badUrl => "bad-url"
  | .delim _ => "delim"
  | .number _ => "number"
  | .percentage _ => "percentage"
  | .dimension _ _ => "dimension"
  | .unicodeRange _ _ => "unicode-range"
  | .whitespace => "whitespace"
  | .commentOpen => "cdo"
  | .commentClose => "cdc"
  | .colon => "colon"
  | .semicolon => "semicolon"
  | .comma => "comma"
  | .column => "column"
  | .includeMatch => "include-match"
  | .dashMatch => "dash-match"
  | .prefixMatch => "prefix-match"
  | .suffixMatch => "suffix-match"
  | .substringMatch => "substring-match"
  | .opening b => "open-" ++ b.name
  | .closing b => "close-" ++ b.name

def same : TokenKind → TokenKind → Bool
  | .number m, .number n => m.matches n
  | .percentage m, .percentage n => m.matches n
  | .dimension m u, .dimension n v => m.matches n && u == v
  | a, b => a == b

def describe : TokenKind → Computed String
  | .number n => do
    return "NumberToken(number=" ++ (← n.text) ++ ", flags=" ++ n.flagText ++ ")"
  | .percentage n => do
    return "PercentageToken(number=" ++ (← n.text) ++ ", flags=" ++ n.flagText ++ ")"
  | .dimension n unit => do
    return "DimensionToken(number=" ++ (← n.text) ++ ", flags=" ++ n.flagText ++ ", unit=" ++
      quoted unit ++ ")"
  | .ident name => .ok ("IdentToken(value=" ++ quoted name ++ ")")
  | .function name => .ok ("FunctionToken(value=" ++ quoted name ++ ")")
  | .atKeyword name => .ok ("AtKeywordToken(value=" ++ quoted name ++ ")")
  | .hash name isIdentifier => .ok ("HashToken(value=" ++ quoted name ++ ", flags=" ++
      (if isIdentifier then "<TokenFlag.ID: 2>" else "<TokenFlag.UNRESTRICTED: 1>") ++ ")")
  | .string value => .ok ("StringToken(value=" ++ quoted value ++ ")")
  | .badString => .ok "BadStringToken()"
  | .url value => .ok ("URLToken(value=" ++ quoted value ++ ")")
  | .badUrl => .ok "BadURLToken()"
  | .delim c => .ok ("DelimToken(value=" ++ quoted (String.singleton c) ++ ")")
  | .unicodeRange first last => .ok ("UnicodeRangeToken(start=" ++ Nat.repr first ++ ", end=" ++
      Nat.repr last ++ ")")
  | .whitespace => .ok "WhitespaceToken()"
  | .commentOpen => .ok "CDOToken()"
  | .commentClose => .ok "CDCToken()"
  | .colon => .ok "ColonToken()"
  | .semicolon => .ok "SemicolonToken()"
  | .comma => .ok "CommaToken()"
  | .column => .ok "ColumnToken()"
  | .includeMatch => .ok "IncludeMatchToken()"
  | .dashMatch => .ok "DashMatchToken()"
  | .prefixMatch => .ok "PrefixMatchToken()"
  | .suffixMatch => .ok "SuffixMatchToken()"
  | .substringMatch => .ok "SubstringMatchToken()"
  | .opening b => .ok ("Open" ++ b.title ++ "Token()")
  | .closing b => .ok ("Close" ++ b.title ++ "Token()")

def isWhitespace : TokenKind → Bool
  | .whitespace => true
  | _ => false

end TokenKind

end StyleValue
