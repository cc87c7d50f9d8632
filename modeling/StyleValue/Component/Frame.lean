import StyleValue.Outcome

/-!
# Open groups

A stack of frames holds the groups that are open: an opening token pushes a frame, the token that
closes the innermost frame makes a value of it, and any other token is a value by itself. The end of
input closes what is open, innermost first.
-/

set_option autoImplicit false

namespace StyleValue

inductive Opener
  | function (name : String)
  | block (bracket : Bracket)
deriving DecidableEq

namespace Opener

def ofKind? : TokenKind → Option Opener
  | .function name => some (.function name)
  | .opening bracket => some (.block bracket)
  | _ => none

def closer : Opener → TokenKind
  | .function _ => .closing .parenthesis
  | .block bracket => .closing bracket

def unterminated : Opener → Diagnostic
  | .function name => .unterminatedFunction name
  | .block _ => .unterminatedBlock

end Opener

structure Frame where
  opener : Opener
  source : String
  values : List ComponentValue

namespace Frame

def add (f : Frame) (v : ComponentValue) : Frame := { f with values := f.values ++ [v] }

def close (f : Frame) (closeSource : String) : ComponentValue :=
  match f.opener with
  | .function name => .function name f.source f.values closeSource
  | .block bracket => .block bracket f.source f.values closeSource

def unwind (f : Frame) : List Frame → ComponentValue
  | [] => f.close ""
  | outer :: others => unwind (outer.add (f.close "")) others

end Frame

inductive Progress
  | complete (value : ComponentValue)
  | pending (inner : Frame) (outer : List Frame)

namespace Progress

def ofValue (v : ComponentValue) : List Frame → Progress
  | [] => .complete v
  | inner :: outer => .pending (inner.add v) outer

def enter (frames : List Frame) (t : Token) : Progress :=
  match Opener.ofKind? t.kind with
  | some opener => .pending ⟨opener, t.source, []⟩ frames
  | none => ofValue (.token t) frames

def feed (frames : List Frame) (t : Token) : Progress :=
  match frames with
  | [] => enter [] t
  | inner :: outer =>
    if t.kind = inner.opener.closer then ofValue (inner.close t.source) outer
    else enter (inner :: outer) t

end Progress

end StyleValue
