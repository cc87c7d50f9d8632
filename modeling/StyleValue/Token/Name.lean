import StyleValue.Text.CodePoint
import StyleValue.Text.Quoted

/-!
# Comments, escapes and names

Each scanner takes the filtered text at hand and gives what it makes of its start, the text that
follows, and the errors it met, which are reported but stop nothing. No scanner gives back more text
than it was given, which is what lets one call another.
-/

set_option autoImplicit false

namespace StyleValue

inductive LexicalError
  | unterminatedComment
  | escapeAtEnd
  | unterminatedUrl
  | unexpectedInUrl (char : Char)
  | invalidEscapeInUrl
  | inputAfterQuotedUrl
  | invalidEscape
  | newlineInString
  | unterminatedString
deriving DecidableEq

def LexicalError.message : LexicalError → String
  | .unterminatedComment => "Unterminated comment"
  | .escapeAtEnd => "Escape at end of input"
  | .unterminatedUrl => "Unterminated URL"
  | .unexpectedInUrl c => "Unexpected " ++ quoted (String.singleton c) ++ " in URL"
  | .invalidEscapeInUrl => "Invalid escape in URL"
  | .inputAfterQuotedUrl => "Unexpected input after quoted URL"
  | .invalidEscape => "Invalid escape"
  | .newlineInString => "Newline in string"
  | .unterminatedString => "Unterminated string"

structure Scanned (α : Type) where
  value : α
  rest : List Char
  reports : List LexicalError := []

namespace Scanned

variable {α β : Type}

def map (f : α → β) (s : Scanned α) : Scanned β := ⟨f s.value, s.rest, s.reports⟩

def after (s : Scanned α) (reports : List LexicalError) : Scanned α :=
  { s with reports := reports ++ s.reports }

@[simp] theorem value_map (f : α → β) (s : Scanned α) : (s.map f).value = f s.value := rfl

@[simp] theorem rest_map (f : α → β) (s : Scanned α) : (s.map f).rest = s.rest := rfl

@[simp] theorem reports_map (f : α → β) (s : Scanned α) : (s.map f).reports = s.reports := rfl

@[simp] theorem value_after (s : Scanned α) (reports : List LexicalError) :
    (s.after reports).value = s.value := rfl

@[simp] theorem rest_after (s : Scanned α) (reports : List LexicalError) :
    (s.after reports).rest = s.rest := rfl

@[simp] theorem reports_after (s : Scanned α) (reports : List LexicalError) :
    (s.after reports).reports = reports ++ s.reports := rfl

end Scanned

namespace Lexer

def afterComment? : List Char → Option (List Char)
  | [] => none
  | '*' :: '/' :: rest => some rest
  | _ :: rest => afterComment? rest

theorem length_afterComment? {text rest : List Char} (h : afterComment? text = some rest) :
    rest.length < text.length := by
  fun_induction afterComment? text with
  | case1 => simp at h
  | case2 =>
    obtain rfl := Option.some.inj h
    simp only [List.length_cons]
    omega
  | case3 _ _ _ ih => exact Nat.lt_succ_of_lt (ih h)

def comments (text : List Char) : Scanned Unit :=
  match text with
  | '/' :: '*' :: body =>
    match _h : afterComment? body with
    | some rest => comments rest
    | none => ⟨(), [], [.unterminatedComment]⟩
  | _ => ⟨(), text, []⟩
termination_by text.length
decreasing_by
  have := length_afterComment? _h
  simp only [List.length_cons]
  omega

def startsEscape : List Char → Bool
  | '\\' :: rest => !(rest.head?.any isNewline)
  | _ => false

def dropSpace : List Char → List Char
  | c :: rest => if isWhitespace c then rest else c :: rest
  | [] => []

theorem length_dropSpace_le (text : List Char) : (dropSpace text).length ≤ text.length := by
  unfold dropSpace
  split
  · split <;> simp
  · simp

def escape (text : List Char) : Scanned Char :=
  let digits := (text.takeWhile isHexDigit).take 6
  match text with
  | [] => ⟨replacementChar, [], [.escapeAtEnd]⟩
  | c :: rest =>
    if isHexDigit c then ⟨charOfOrdinal (ofHexDigits digits), dropSpace (text.drop digits.length), []⟩
    else ⟨c, rest, []⟩

theorem length_escape_le (text : List Char) : (escape text).rest.length ≤ text.length := by
  unfold escape
  dsimp only
  split
  · simp
  · split
    · refine Nat.le_trans (length_dropSpace_le _) ?_
      simp
    · simp

def name (text : List Char) : Scanned (List Char) :=
  match text with
  | [] => ⟨[], [], []⟩
  | c :: rest =>
    if isIdent c then (name rest).map (c :: ·)
    else if startsEscape (c :: rest) then
      let escaped := escape rest
      ((name escaped.rest).map (escaped.value :: ·)).after escaped.reports
    else ⟨[], c :: rest, []⟩
termination_by text.length
decreasing_by
  · exact Nat.lt_succ_self _
  · have := length_escape_le rest
    simp only [List.length_cons]
    omega

def startsName : List Char → Bool
  | '-' :: rest => rest.head?.any (fun c => isIdentStart c || c == '-') || startsEscape rest
  | c :: rest => isIdentStart c || startsEscape (c :: rest)
  | [] => false

end Lexer

end StyleValue
