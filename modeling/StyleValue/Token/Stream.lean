import StyleValue.Text.Filter
import StyleValue.Token.Lexer

/-!
# Streams of tokens

`lex` cuts a whole text: it skips comments, scans a token, and gives the token the unfiltered text
of the code points that the scanner went past. A stream keeps with each token the errors met on the
way to it.
-/

set_option autoImplicit false

namespace StyleValue

structure Pull where
  reports : List LexicalError
  token : Token

structure TokenStream where
  pulls : List Pull
  reports : List LexicalError
  fault : Option Fault

namespace TokenStream

def cons (pull : Pull) (s : TokenStream) : TokenStream := { s with pulls := pull :: s.pulls }

def ofTokens (tokens : List Token) : TokenStream := ⟨tokens.map (⟨[], ·⟩), [], none⟩

def tokens (s : TokenStream) : List Token := s.pulls.map Pull.token

def allReports (s : TokenStream) : List LexicalError := s.pulls.flatMap Pull.reports ++ s.reports

def unreported (s : TokenStream) : TokenStream :=
  ⟨s.pulls.map fun p => ⟨[], p.token⟩, [], s.fault⟩

def empty : TokenStream := ⟨[], [], none⟩

theorem tokens_ofTokens (tokens : List Token) : (ofTokens tokens).tokens = tokens := by
  simp [ofTokens, TokenStream.tokens, Function.comp_def]

end TokenStream

def lastCodePoints (cps : List CodePoint) (text : List Char) : List CodePoint :=
  cps.drop (cps.length - text.length)

def firstCodePoints (cps : List CodePoint) (text : List Char) : List CodePoint :=
  cps.take (cps.length - text.length)

def lex (rangesAllowed : Bool) (cps : List CodePoint) : TokenStream :=
  let skipped := Lexer.comments (cps.map CodePoint.char)
  match _h : lastCodePoints cps skipped.rest with
  | [] => ⟨[], skipped.reports, none⟩
  | cp :: others =>
    let scanned := Lexer.token rangesAllowed cp.char (others.map CodePoint.char)
    let reports := skipped.reports ++ scanned.reports
    match scanned.value with
    | .error fault => ⟨[], reports, some fault⟩
    | .ok kind =>
      let consumed := cp :: firstCodePoints others scanned.rest
      let token : Token := ⟨kind, String.ofList (CodePoint.sources consumed)⟩
      (lex rangesAllowed (lastCodePoints others scanned.rest)).cons ⟨reports, token⟩
termination_by cps.length
decreasing_by
  have := congrArg List.length _h
  simp [lastCodePoints] at this ⊢
  omega

def lexChunks (rangesAllowed : Bool) (chunks : List String) : TokenStream :=
  lex rangesAllowed (filterChunks chunks)

def lexText (text : String) : TokenStream := lexChunks false [text]

structure Tokenizer where
  chunks : List String := []

namespace Tokenizer

def write (t : Tokenizer) (chunk : String) : Tokenizer := ⟨t.chunks ++ [chunk]⟩

def read (t : Tokenizer) : TokenStream × Tokenizer := (lexChunks false t.chunks, ⟨[]⟩)

end Tokenizer

end StyleValue
