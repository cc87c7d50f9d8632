import StyleValue.Context

/-!
# Sessions

Contexts that share caches, over a sequence of operations. An operation for a context registers
its images with the cache of the context and reports to the logger of the context, whether it
succeeds or not. A cache is there from the first time that it is named.
-/

set_option autoImplicit false

namespace StyleValue

structure RecordedCache where
  calls : List String := []
  cache : ImageCache := {}

namespace RecordedCache

def register (c : RecordedCache) (urls : List String) : RecordedCache :=
  ⟨c.calls ++ urls, c.cache.addAll urls⟩

end RecordedCache

structure Context where
  cache : String
  logger : Logger

structure Session where
  caches : List (String × RecordedCache) := []
  contexts : List (String × Context) := []

namespace Session

def cache (s : Session) (name : String) : RecordedCache := (s.caches.lookup name).getD {}

def putCache (s : Session) (name : String) (c : RecordedCache) : Session :=
  if s.caches.any fun entry => entry.1 == name then
    { s with caches := s.caches.map fun entry => if entry.1 == name then (name, c) else entry }
  else { s with caches := s.caches ++ [(name, c)] }

def context? (s : Session) (id : String) : Option Context := s.contexts.lookup id

def putContext (s : Session) (id : String) (c : Context) : Session :=
  { s with contexts := (id, c) :: s.contexts }

def create (s : Session) (id : String) (c : Context) : Session :=
  (s.putCache c.cache (s.cache c.cache)).putContext id c

def switch (s : Session) (id : String) (enabled : Bool) : Session :=
  match s.context? id with
  | some c => s.putContext id { c with logger := c.logger.switch enabled }
  | none => s

def register (s : Session) (name : String) (urls : List String) : Session :=
  s.putCache name ((s.cache name).register urls)

def perform {α : Type} (s : Session) (c : Context) (x : Outcome α) : List LogRecord × Session :=
  (c.logger.records x, s.register c.cache x.registered)

end Session

end StyleValue
