import StyleValue.Token.Name

/-!
# Strings and URLs

Quoted text, with its escapes resolved, and URLs with and without quotes. A newline breaks a
string; a URL that breaks the rules is skipped up to its closing parenthesis.
-/

set_option autoImplicit false

namespace StyleValue

namespace Lexer

def string (quote : Char) (text : List Char) : Scanned (Option (List Char)) :=
  match text with
  | [] => ⟨some [], [], [.unterminatedString]⟩
  | c :: rest =>
    if c = quote then ⟨some [], rest, []⟩
    else if isNewline c then ⟨none, c :: rest, [.newlineInString]⟩
    else if c = '\\' then
      match rest with
      | [] => ⟨some [], [], [.unterminatedString]⟩
      | d :: others =>
        if isNewline d then string quote others
        else
          let escaped := escape (d :: others)
          ((string quote escaped.rest).map (Option.map (escaped.value :: ·))).after escaped.reports
    else (string quote rest).map (Option.map (c :: ·))
termination_by text.length
decreasing_by
  · simp only [List.length_cons]
    omega
  · have := length_escape_le (d :: others)
    simp only [List.length_cons] at this ⊢
    omega
  · exact Nat.lt_succ_self _

def remnants (text : List Char) : Scanned Unit :=
  match text with
  | [] => ⟨(), [], []⟩
  | c :: rest =>
    if c = ')' then ⟨(), rest, []⟩
    else if startsEscape (c :: rest) then
      let escaped := escape rest
      (remnants escaped.rest).after escaped.reports
    else remnants rest
termination_by text.length
decreasing_by
  · have := length_escape_le rest
    simp only [List.length_cons]
    omega
  · exact Nat.lt_succ_self _

def badUrl (reports : List LexicalError) (text : List Char) : Scanned (Option (List Char)) :=
  ((remnants text).map fun _ => none).after reports

def unquotedUrl (text : List Char) : Scanned (Option (List Char)) :=
  match text with
  | [] => ⟨some [], [], [.unterminatedUrl]⟩
  | c :: rest =>
    if c = ')' then ⟨some [], rest, []⟩
    else if isWhitespace c then
      match rest.dropWhile isWhitespace with
      | [] => ⟨some [], [], [.unterminatedUrl]⟩
      | d :: others => if d = ')' then ⟨some [], others, []⟩ else badUrl [] (d :: others)
    else if c = '"' || c = '\'' || c = '(' || isNonPrintable c then
      badUrl [.unexpectedInUrl c] rest
    else if c = '\\' then
      if startsEscape (c :: rest) then
        let escaped := escape rest
        ((unquotedUrl escaped.rest).map (Option.map (escaped.value :: ·))).after escaped.reports
      else badUrl [.invalidEscapeInUrl] rest
    else (unquotedUrl rest).map (Option.map (c :: ·))
termination_by text.length
decreasing_by
  · have := length_escape_le rest
    simp only [List.length_cons]
    omega
  · exact Nat.lt_succ_self _

def quotedUrl (quote : Char) (text : List Char) : Scanned (Option (List Char)) :=
  let content := string quote text
  match content.value, content.rest.dropWhile isWhitespace with
  | some value, [] => ⟨some value, [], content.reports ++ [.unterminatedUrl]⟩
  | some value, c :: rest =>
    if c = ')' then ⟨some value, rest, content.reports⟩
    else badUrl (content.reports ++ [.inputAfterQuotedUrl]) (c :: rest)
  | none, _ => badUrl (content.reports ++ [.inputAfterQuotedUrl]) content.rest

def url (text : List Char) : Scanned (Option (List Char)) :=
  match text.dropWhile isWhitespace with
  | c :: rest => if c = '"' || c = '\'' then quotedUrl c rest else unquotedUrl (c :: rest)
  | [] => unquotedUrl []

end Lexer

end StyleValue
