import StyleValue.Outcome

/-!
# Contexts

What values are parsed for: a cache that images are registered with, and a logger that diagnostics
are reported to. A context has a logger of its own, with a name and a switch, or shares the one of
the library. Reports of groups that the end of input closed are the parser's own: they go to its
channel whatever the context.
-/

set_option autoImplicit false

namespace StyleValue

inductive Channel
  | contextual (name : Option String)
  | library
  | parser
deriving DecidableEq

structure LogRecord where
  channel : Channel
  /-- The text, which is made when the record is written out; the record is there without it. -/
  message : Computed String
deriving DecidableEq

inductive Logger
  | own (name : Option String) (enabled : Bool)
  | shared
deriving DecidableEq

namespace Logger

def isOwn : Logger → Bool
  | .own _ _ => true
  | .shared => false

def isEnabled : Logger → Bool
  | .own _ enabled => enabled
  | .shared => true

def switch (enabled : Bool) : Logger → Logger
  | .own name _ => .own name enabled
  | .shared => .shared

def channel : Logger → Channel
  | .own name _ => .contextual name
  | .shared => .library

def record? (l : Logger) (d : Diagnostic) : Option LogRecord :=
  if d.isStructural then some ⟨.parser, d.message⟩
  else if l.isEnabled then some ⟨l.channel, d.message⟩
  else none

def records {α : Type} (l : Logger) (x : Outcome α) : List LogRecord :=
  x.diagnostics.filterMap l.record?

end Logger

structure ImageCache where
  urls : List String := []
deriving DecidableEq

namespace ImageCache

def contains (c : ImageCache) (url : String) : Bool := c.urls.contains url

def add (c : ImageCache) (url : String) : ImageCache :=
  if c.contains url then c else ⟨c.urls ++ [url]⟩

def addAll (c : ImageCache) (urls : List String) : ImageCache := urls.foldl add c

end ImageCache

end StyleValue
