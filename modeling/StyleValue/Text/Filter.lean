import StyleValue.Text.CodePoint

/-!
# Filtering of input

Before tokens are formed, each kind of line end becomes one newline and a NUL becomes the
replacement character. A filtered code point keeps the text it was made from. The filter takes the
text in chunks cut anywhere, also inside a line end of two characters: all that it remembers
between characters is whether the last one was a carriage return.
-/

set_option autoImplicit false

namespace StyleValue

structure CodePoint where
  char : Char
  source : List Char
deriving DecidableEq

namespace Filter

def carriageReturn : Char := Char.ofNat 0x0d
def formFeed : Char := Char.ofNat 0x0c
def nul : Char := Char.ofNat 0

def replace (c : Char) : Char :=
  if c = formFeed then '\n' else if c = nul then replacementChar else c

def flush (pending : Bool) : List CodePoint :=
  if pending then [⟨'\n', [carriageReturn]⟩] else []

def step (pending : Bool) (c : Char) : List CodePoint :=
  if pending && c = '\n' then [⟨'\n', [carriageReturn, '\n']⟩]
  else if c = carriageReturn then flush pending
  else flush pending ++ [⟨replace c, [c]⟩]

def feed (pending : Bool) (text : List Char) : Bool × List CodePoint :=
  let returns := text.map (· == carriageReturn)
  (returns.getLast?.getD pending, (List.zipWith step (pending :: returns) text).flatten)

@[simp] theorem feed_nil (pending : Bool) : feed pending [] = (pending, []) := rfl

theorem feed_cons (pending : Bool) (c : Char) (text : List Char) :
    feed pending (c :: text) =
      ((feed (c == carriageReturn) text).1,
        step pending c ++ (feed (c == carriageReturn) text).2) := by
  simp [feed, List.getLast?_cons]

theorem feed_append (pending : Bool) (s t : List Char) :
    feed pending (s ++ t) =
      ((feed (feed pending s).1 t).1, (feed pending s).2 ++ (feed (feed pending s).1 t).2) := by
  induction s generalizing pending with
  | nil => rfl
  | cons c s ih => simp only [List.cons_append, feed_cons, ih, List.append_assoc]

def feedChunks (pending : Bool) : List (List Char) → Bool × List CodePoint
  | [] => (pending, [])
  | chunk :: chunks =>
    let (next, completed) := feed pending chunk
    let (final, others) := feedChunks next chunks
    (final, completed ++ others)

/-- Where the text is cut makes no difference. -/
theorem feedChunks_eq_feed (pending : Bool) (chunks : List (List Char)) :
    feedChunks pending chunks = feed pending chunks.flatten := by
  induction chunks generalizing pending with
  | nil => rfl
  | cons chunk chunks ih => simp [feedChunks, ih, feed_append]

end Filter

def filterChunks (chunks : List String) : List CodePoint :=
  let (pending, completed) := Filter.feedChunks false (chunks.map String.toList)
  completed ++ Filter.flush pending

def filter (text : String) : List CodePoint := filterChunks [text]

def CodePoint.sources (cps : List CodePoint) : List Char := cps.flatMap CodePoint.source

theorem CodePoint.sources_append (a b : List CodePoint) :
    CodePoint.sources (a ++ b) = CodePoint.sources a ++ CodePoint.sources b := by
  simp [CodePoint.sources]

end StyleValue
