import Mathlib.Data.List.ReduceOption
import StyleValue.Token.Stream

/-!
# Procedures over a cursor

The tokenizer as a set of procedures, which look ahead in the text, consume code points one after
the other and put some of them back. They have side conditions, each checked where it matters: an
assertion, or what a conversion takes. A procedure that loops forever has no outcome.
-/

set_option autoImplicit false

namespace StyleValue

inductive Mishap
  | assertion
  | noCodePoint
  | decimal
  | hexDigits
  | ordinal
  | overflow
deriving DecidableEq

/-- Where the procedures are in a text: the code points to come, those consumed for the token being
formed, with the end of input among them if it was met, and what was reported and formed so far. -/
structure Cursor where
  ahead : List CodePoint
  consumed : List (Option CodePoint)
  reports : List LexicalError
  tokens : List Token

namespace Cursor

def start : Cursor := ⟨[], [], [], []⟩

def text (c : Cursor) : List Char := c.ahead.map CodePoint.char

def source (c : Cursor) : String := String.ofList (CodePoint.sources c.consumed.reduceOption)

def next (c : Cursor) : Cursor :=
  { c with ahead := c.ahead.tail, consumed := c.consumed ++ [c.ahead.head?] }

end Cursor

abbrev Procedure (α : Type) : Type := ExceptT Mishap (StateT Cursor Option) α

namespace Procedure

def on {α : Type} (p : Procedure α) (c : Cursor) : Option (Except Mishap α × Cursor) := p.run c

def peek (n : Nat) : Procedure (List Char) := do
  return (← get).text.take n

def consume (n : Nat) : Procedure Unit :=
  modify fun c =>
    let items := c.ahead.take n
    { c with
      ahead := c.ahead.drop n
      consumed := c.consumed ++ if items.isEmpty then [none] else items.map some }

def require (condition : Bool) : Procedure Unit :=
  if condition then pure () else throw .assertion

def current : Procedure (Option CodePoint) := do
  match (← get).consumed.getLast? with
  | some cp => return cp
  | none => throw .noCodePoint

def currentChar : Procedure (Option Char) := do
  return (← current).map CodePoint.char

def reconsume (cps : List (Option CodePoint)) : Procedure Unit := do
  let consumed := (← get).consumed
  let kept := consumed.length - cps.length
  require (!cps.isEmpty && cps.map (Option.map CodePoint.char) ==
    (consumed.drop kept).map (Option.map CodePoint.char))
  modify fun c => { c with ahead := cps.reduceOption ++ c.ahead, consumed := consumed.take kept }

def mark : Procedure Nat := do
  return (← get).consumed.length

def consumedSince (mark : Nat) : Procedure (List Char) := do
  return ((← get).consumed.drop mark).reduceOption.map CodePoint.char

def report (error : LexicalError) : Procedure Unit :=
  modify fun c => { c with reports := c.reports ++ [error] }

def sourced (kind : TokenKind) : Procedure Token := do
  return ⟨kind, (← get).source⟩

def decimal (literal : List Char) : Procedure Decimal :=
  let (negative, unsigned) := Numeral.scanSign literal
  let whole := unsigned.takeWhile isDigit
  let fraction :=
    match unsigned.dropWhile isDigit with
    | [] => some []
    | '.' :: digits => if digits.all isDigit then some digits else none
    | _ => none
  match fraction with
  | some fraction =>
    if (whole ++ fraction).isEmpty then throw .decimal
    else return ⟨negative, ofDigits (whole ++ fraction), -fraction.length⟩
  | none => throw .decimal

def hexadecimal (digits : List Char) : Procedure Nat :=
  if !digits.isEmpty && digits.all isHexDigit then pure (ofHexDigits digits) else throw .hexDigits

def character (ordinal : Nat) : Procedure Char :=
  if ordinal.isValidChar then pure (Char.ofNat ordinal) else throw .ordinal

/-- The rounds of a loop. Each gives what the next one starts with, or else the result. -/
abbrev Loop (σ α : Type) : Type := σ → Procedure (σ ⊕ α)

section Round

variable {σ α : Type}

def goOn (s : σ) : Procedure (σ ⊕ α) := return .inl s

def stop (a : α) : Procedure (σ ⊕ α) := return .inr a

def Loop.run (loop : Loop σ α) (s : σ) : Procedure α := do
  match ← loop s with
  | .inl s => loop |>.run s
  | .inr a => return a
partial_fixpoint

theorem Loop.run_eq (loop : Loop σ α) (s : σ) : loop.run s = loop s >>= Sum.elim loop.run pure := by
  rw [Loop.run]
  congr
  funext round
  cases round <;> rfl

end Round

def consumeRound (p : Char → Bool) : Loop Unit Unit := fun _ => do
  if (← peek 1).any p then
    consume 1
    goOn ()
  else stop ()

def consumeWhile (p : Char → Bool) : Procedure Unit := (consumeRound p).run ()

theorem consumeWhile_eq (p : Char → Bool) :
    consumeWhile p = consumeRound p () >>= Sum.elim (fun _ => consumeWhile p) pure :=
  Loop.run_eq (consumeRound p) ()

def consumeUpToRound (p : Char → Bool) (mark limit : Nat) : Loop Unit Unit := fun _ => do
  if (← peek 1).any p && (← get).consumed.length - mark < limit then
    consume 1
    goOn ()
  else stop ()

def consumeUpTo (p : Char → Bool) (mark limit : Nat) : Procedure Unit :=
  (consumeUpToRound p mark limit).run ()

theorem consumeUpTo_eq (p : Char → Bool) (mark limit : Nat) :
    consumeUpTo p mark limit =
      consumeUpToRound p mark limit () >>= Sum.elim (fun _ => consumeUpTo p mark limit) pure :=
  Loop.run_eq (consumeUpToRound p mark limit) ()

def collectRound (p : Char → Bool) : Loop (List Char) (List Char) := fun text => do
  let cp ← peek 1
  if cp.any p then
    consume 1
    goOn (text ++ cp)
  else stop text

def collectWhile (p : Char → Bool) (text : List Char) : Procedure (List Char) :=
  (collectRound p).run text

theorem collectWhile_eq (p : Char → Bool) (text : List Char) :
    collectWhile p text = collectRound p text >>= Sum.elim (collectWhile p) pure :=
  Loop.run_eq (collectRound p) text

end Procedure

end StyleValue
