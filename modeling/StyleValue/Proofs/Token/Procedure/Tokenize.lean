import StyleValue.Proofs.Token.Procedure.Cursor

/-!
# The procedures of the tokenizer

One procedure for each kind of token and for each part of one, over a cursor that they share. What
one of them takes for granted, such as a digit to come, is established by the lookahead of
another. Characters to decide on are given, or else the last consumed and the next.
-/

set_option autoImplicit false

namespace StyleValue

namespace Procedure

def vend (value source : List Char) : Procedure Unit := do
  require (value.length ≤ 1)
  modify fun c => { c with ahead := c.ahead ++ (value.head?.map (⟨·, source⟩)).toList }

def vendPending (pending : Bool) : Procedure Unit := do
  if pending then vend ['\n'] [Filter.carriageReturn]

def vendReplaced (c : Char) : Procedure Unit :=
  if c = Filter.formFeed then vend ['\n'] [c]
  else if c = Filter.nul then vend [replacementChar] [c]
  else vend [c] [c]

def filterCodePoints (pending : Bool) : List Char → Procedure Unit
  | [] => vendPending pending
  | c :: text => do
    if pending && c = '\n' then
      vend ['\n'] [Filter.carriageReturn, '\n']
      filterCodePoints false text
    else
      vendPending pending
      if c = Filter.carriageReturn then filterCodePoints true text
      else
        vendReplaced c
        filterCodePoints false text

def givenOrCurrent (given : List Char) (n : Nat) : Procedure (List Char) := do
  if given.isEmpty then return (← currentChar).toList ++ (← peek n) else return given

def commentBodyRound : Loop Unit Bool := fun _ => do
  let cps ← peek 2
  if cps = ['*', '/'] then
    consume 2
    stop true
  else if cps.isEmpty then
    report .unterminatedComment
    stop false
  else
    consume 1
    goOn ()

def commentBody : Procedure Bool := commentBodyRound.run ()

theorem commentBody_eq :
    commentBody = commentBodyRound () >>= Sum.elim (fun _ => commentBody) pure :=
  Loop.run_eq commentBodyRound ()

def commentRound : Loop Unit Unit := fun _ => do
  if (← peek 2) = ['/', '*'] then
    consume 2
    if ← commentBody then goOn () else stop ()
  else stop ()

def comments : Procedure Unit := commentRound.run ()

theorem comments_eq : comments = commentRound () >>= Sum.elim (fun _ => comments) pure :=
  Loop.run_eq commentRound ()

def isValidEscape (given : List Char) : Procedure Bool := do
  let cps ← givenOrCurrent given 1
  return cps.head? == some '\\' && !cps[1]?.any isNewline

def anyCharacter (ordinal : Nat) : Procedure Char :=
  if ordinal = 0 || Ordinal.isSurrogate ordinal || 0x10ffff < ordinal then pure replacementChar
  else character ordinal

def escapedCodePoint : Procedure Char := do
  consume 1
  match ← currentChar with
  | some c =>
    if isHexDigit c then
      let start ← mark
      consumeUpTo isHexDigit start 5
      let digits ← consumedSince (start - 1)
      if (← peek 1).any isWhitespace then consume 1
      anyCharacter (← hexadecimal digits)
    else return c
  | none =>
    report .escapeAtEnd
    return replacementChar

def startsIdent (given : List Char) : Procedure Bool := do
  let cps ← givenOrCurrent given 2
  match cps with
  | '-' :: others =>
    if others.head?.any fun c => isIdentStart c || c == '-' then return true
    else isValidEscape (others.take 2)
  | c :: _ =>
    if isIdentStart c then return true
    else if c = '\\' then isValidEscape (cps.take 2)
    else return false
  | [] => return false

def identRound : Loop (List Char) (List Char) := fun result => do
  consume 1
  let cp ← currentChar
  if cp.any isIdent then goOn (result ++ cp.toList)
  else if ← isValidEscape [] then
    let c ← escapedCodePoint
    goOn (result ++ [c])
  else
    reconsume [← current]
    stop result

def identSequence (result : List Char) : Procedure (List Char) := identRound.run result

theorem identSequence_eq (result : List Char) :
    identSequence result = identRound result >>= Sum.elim identSequence pure :=
  Loop.run_eq identRound result

def startsNumber : Procedure Bool := do
  let cps ← givenOrCurrent [] 2
  match cps with
  | '+' :: others => return Numeral.startsUnsigned others
  | '-' :: others => return Numeral.startsUnsigned others
  | '.' :: others => return others.head?.any isDigit
  | c :: _ => return isDigit c
  | [] => return false

def signPart : Procedure (List Char) := do
  let cp ← peek 1
  if cp = ['+'] || cp = ['-'] then
    consume 1
    return cp
  else return []

def fractionPart (number : List Char) : Procedure (List Char × Bool) := do
  let cps ← peek 2
  if cps.head? = some '.' && cps[1]?.any isDigit then
    consume 1
    return (← collectWhile isDigit (number ++ ['.']), true)
  else return (number, false)

def exponentPart : Procedure (List Char × Bool) := do
  let cps ← peek 3
  if (cps.head? == some 'e' || cps.head? == some 'E') &&
      ((cps[1]? == some '-' || cps[1]? == some '+') && cps[2]?.any isDigit ||
        cps[1]?.any isDigit) then
    consume 1
    let sign ← signPart
    return (← collectWhile isDigit sign, true)
  else return ([], false)

def convert (mantissa exponent : List Char) (isInteger : Bool) : Procedure Number := do
  let value ← decimal mantissa
  let power ← decimal (if exponent.isEmpty then ['0'] else exponent)
  match value.scale power.truncate with
  | some scaled =>
    return if isInteger then .integer scaled.truncate else .double scaled.toDouble
  | none =>
    if isInteger then throw .overflow
    else return .double (.infinite (mantissa.head? == some '-'))

def number : Procedure Number := do
  let sign ← signPart
  let whole ← collectWhile isDigit sign
  let (mantissa, isFractional) ← fractionPart whole
  let (exponent, isScaled) ← exponentPart
  convert mantissa exponent (!isFractional && !isScaled)

def numericToken : Procedure Token := do
  let x ← number
  if ← startsIdent (← peek 3) then
    let unit ← identSequence []
    sourced (.dimension x (String.ofList unit))
  else if (← peek 1) = ['%'] then
    consume 1
    sourced (.percentage x)
  else sourced (.number x)

def stringRound (ending : Option Char) : Loop (List Char) Token := fun value => do
  consume 1
  let cp ← currentChar
  if cp = ending then stop (← sourced (.string (String.ofList value)))
  else
    match cp with
    | none =>
      report .unterminatedString
      stop (← sourced (.string (String.ofList value)))
    | some c =>
      if isNewline c then
        report .newlineInString
        reconsume [← current]
        stop (← sourced .badString)
      else if c = '\\' then
        let next ← peek 1
        if next.isEmpty then goOn value
        else if next.any isNewline then
          consume 1
          goOn value
        else
          let d ← escapedCodePoint
          goOn (value ++ [d])
      else goOn (value ++ [c])

def stringRest (ending : Option Char) (value : List Char) : Procedure Token :=
  (stringRound ending).run value

theorem stringRest_eq (ending : Option Char) (value : List Char) :
    stringRest ending value = stringRound ending value >>= Sum.elim (stringRest ending) pure :=
  Loop.run_eq (stringRound ending) value

def stringToken : Procedure Token := do
  stringRest (← currentChar) []

def remnantRound : Loop Unit Unit := fun _ => do
  consume 1
  match ← currentChar with
  | none => stop ()
  | some c =>
    if c = ')' then stop ()
    else
      if ← isValidEscape [] then
        let _ ← escapedCodePoint
      goOn ()

def urlRemnants : Procedure Unit := remnantRound.run ()

theorem urlRemnants_eq :
    urlRemnants = remnantRound () >>= Sum.elim (fun _ => urlRemnants) pure :=
  Loop.run_eq remnantRound ()

def badUrlToken : Procedure Token := do
  urlRemnants
  sourced .badUrl

def urlRound : Loop (List Char) Token := fun value => do
  consume 1
  match ← currentChar with
  | none =>
    report .unterminatedUrl
    stop (← sourced (.url (String.ofList value)))
  | some c =>
    if c = ')' then stop (← sourced (.url (String.ofList value)))
    else if isWhitespace c then
      consumeWhile isWhitespace
      let cp ← peek 1
      if cp = [')'] || cp.isEmpty then
        consume 1
        if cp.isEmpty then report .unterminatedUrl
        stop (← sourced (.url (String.ofList value)))
      else stop (← badUrlToken)
    else if c = '"' || c = '\'' || c = '(' || isNonPrintable c then
      report (.unexpectedInUrl c)
      stop (← badUrlToken)
    else if c = '\\' then
      if ← isValidEscape [] then
        let d ← escapedCodePoint
        goOn (value ++ [d])
      else
        report .invalidEscapeInUrl
        stop (← badUrlToken)
    else goOn (value ++ [c])

def urlRest (value : List Char) : Procedure Token := urlRound.run value

theorem urlRest_eq (value : List Char) :
    urlRest value = urlRound value >>= Sum.elim urlRest pure :=
  Loop.run_eq urlRound value

def urlToken : Procedure Token := do
  consumeWhile isWhitespace
  urlRest []

def quotedUrlToken : Procedure Token := do
  consume 1
  match (← stringToken).kind with
  | .string value =>
    consumeWhile isWhitespace
    let cp ← peek 1
    if cp = [')'] then
      consume 1
      sourced (.url value)
    else if cp.isEmpty then
      report .unterminatedUrl
      sourced (.url value)
    else
      report .inputAfterQuotedUrl
      badUrlToken
  | _ =>
    report .inputAfterQuotedUrl
    badUrlToken

def identLikeToken : Procedure Token := do
  let name ← identSequence []
  if (← peek 1) ≠ ['('] then sourced (.ident (String.ofList name))
  else
    consume 1
    if lowercase (String.ofList name) = "url" then
      consumeWhile isWhitespace
      let cp ← peek 1
      if cp = ['"'] || cp = ['\''] then quotedUrlToken else urlToken
    else sourced (.function (String.ofList name))

def startsRange (cps : List Char) : Bool :=
  (cps.head? == some 'U' || cps.head? == some 'u') && cps[1]? == some '+' &&
    cps[2]?.any fun c => c == '?' || isHexDigit c

def rangeToken (first : List Char) : Procedure Token := do
  if first.contains '?' then
    let low ← hexadecimal (first.map fun c => if c = '?' then '0' else c)
    let high ← hexadecimal (first.map fun c => if c = '?' then 'F' else c)
    sourced (.unicodeRange low high)
  else
    let low ← hexadecimal first
    let cps ← peek 2
    if cps.head? = some '-' && cps[1]?.any isHexDigit then
      consume 1
      let start ← mark
      consumeUpTo isHexDigit start 6
      let high ← hexadecimal (← consumedSince start)
      sourced (.unicodeRange low high)
    else sourced (.unicodeRange low low)

def unicodeRangeToken : Procedure Token := do
  consume 2
  let start ← mark
  consumeUpTo isHexDigit start 6
  consumeUpTo (· == '?') start 6
  rangeToken (← consumedSince start)

def hashToken : Procedure Token := do
  let named ← if (← peek 1).any isIdent then pure true else isValidEscape (← peek 2)
  if named then
    let isIdentifier ← startsIdent (← peek 3)
    let name ← identSequence []
    sourced (.hash (String.ofList name) isIdentifier)
  else sourced (.delim '#')

def startOver (token : Procedure Token) : Procedure Token := do
  reconsume [← current]
  token

def tokenFrom (rangesAllowed : Bool) (c : Char) : Procedure Token := do
  if isWhitespace c then
    consumeWhile isWhitespace
    sourced .whitespace
  else if c = '"' || c = '\'' then stringToken
  else if c = '#' then hashToken
  else if c = '+' || c = '.' then
    if ← startsNumber then startOver numericToken else sourced (.delim c)
  else if c = '-' then
    if ← startsNumber then startOver numericToken
    else if (← peek 2) = ['-', '>'] then
      consume 2
      sourced .commentClose
    else if ← startsIdent [] then startOver identLikeToken
    else sourced (.delim c)
  else if c = '<' then
    if (← peek 3) = ['!', '-', '-'] then
      consume 3
      sourced .commentOpen
    else sourced (.delim c)
  else if c = '@' then
    if ← startsIdent (← peek 3) then
      let name ← identSequence []
      sourced (.atKeyword (String.ofList name))
    else sourced (.delim c)
  else if c = '\\' then
    if ← isValidEscape [] then startOver identLikeToken
    else
      report .invalidEscape
      sourced (.delim c)
  else if isDigit c then startOver numericToken
  else if c = 'U' || c = 'u' then
    startOver do
      if rangesAllowed && startsRange (← peek 3) then unicodeRangeToken else identLikeToken
  else if isIdentStart c then startOver identLikeToken
  else
    match (← peek 1).head?.bind (Lexer.pair? c) with
    | some kind =>
      consume 1
      sourced kind
    | none => sourced ((Lexer.sign? c).getD (.delim c))

def token (rangesAllowed : Bool) : Procedure (Option Token) := do
  require (← get).consumed.isEmpty
  consume 1
  match ← currentChar with
  | some c => return some (← tokenFrom rangesAllowed c)
  | none => return none

def clear : Procedure Unit := modify fun c => { c with consumed := [] }

def emit (token : Token) : Procedure Unit :=
  modify fun c => { c with tokens := c.tokens ++ [token] }

def tokenRound (rangesAllowed : Bool) : Loop Unit Unit := fun _ => do
  comments
  clear
  match ← token rangesAllowed with
  | none => stop ()
  | some t =>
    emit t
    clear
    goOn ()

def tokenize (rangesAllowed : Bool) : Procedure Unit := (tokenRound rangesAllowed).run ()

theorem tokenize_eq (rangesAllowed : Bool) : tokenize rangesAllowed =
    tokenRound rangesAllowed () >>= Sum.elim (fun _ => tokenize rangesAllowed) pure :=
  Loop.run_eq (tokenRound rangesAllowed) ()

def tokenizeChunks (rangesAllowed : Bool) (chunks : List String) : Procedure Unit := do
  filterCodePoints false (chunks.map String.toList).flatten
  tokenize rangesAllowed

end Procedure

end StyleValue
