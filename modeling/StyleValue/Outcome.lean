import StyleValue.Failure
import StyleValue.Token.Stream

/-!
# Outcomes

What an operation leaves behind besides its result: the diagnostics that it reports and the images
that it registers, in order. Both stay when the operation fails.
-/

set_option autoImplicit false

namespace StyleValue

inductive Diagnostic
  | lexical (error : LexicalError)
  | unterminatedFunction (name : String)
  | unterminatedBlock
  | unsupportedColor (value : ComponentValue)
  | invalidHexColor (digits : String)
  | unknownColorName (name : String)
  | unsupportedImage (value : ComponentValue)
deriving DecidableEq

namespace Diagnostic

def message : Diagnostic → Computed String
  | .lexical error => .ok error.message
  | .unterminatedFunction name => .ok ("Unterminated function " ++ quoted name)
  | .unterminatedBlock => .ok "Unterminated block"
  | .unsupportedColor v => do
    return "Unsupported color value " ++ (← v.describe) ++ ", taken to be transparent"
  | .invalidHexColor digits =>
    .ok ("Invalid hex color #" ++ digits ++ ", taken to be transparent")
  | .unknownColorName name =>
    .ok ("Unknown color name " ++ quoted name ++ ", taken to be transparent")
  | .unsupportedImage v => do return "Ignoring unsupported background image " ++ (← v.describe)

def isStructural : Diagnostic → Bool
  | .unterminatedFunction _ | .unterminatedBlock => true
  | _ => false

end Diagnostic

inductive Event
  | report (diagnostic : Diagnostic)
  | register (url : String)
deriving DecidableEq

structure Outcome (α : Type) where
  events : List Event
  result : Parsed α

namespace Outcome

variable {α β : Type}

def after (x : Outcome α) (events : List Event) : Outcome α :=
  ⟨events ++ x.events, x.result⟩

@[simp] theorem events_after (x : Outcome α) (events : List Event) :
    (x.after events).events = events ++ x.events := rfl

@[simp] theorem result_after (x : Outcome α) (events : List Event) :
    (x.after events).result = x.result := rfl

protected def pure (a : α) : Outcome α := ⟨[], .ok a⟩

protected def bind (x : Outcome α) (f : α → Outcome β) : Outcome β :=
  match x.result with
  | .ok a => (f a).after x.events
  | .error failure => ⟨x.events, .error failure⟩

instance : Monad Outcome where
  pure := Outcome.pure
  bind := Outcome.bind

theorem bind_of_ok {x : Outcome α} {a : α} (h : x.result = .ok a) (f : α → Outcome β) :
    x >>= f = (f a).after x.events := by
  show Outcome.bind x f = _
  rw [Outcome.bind, h]

theorem bind_of_error {x : Outcome α} {failure : Failure} (h : x.result = .error failure)
    (f : α → Outcome β) : x >>= f = ⟨x.events, .error failure⟩ := by
  show Outcome.bind x f = _
  rw [Outcome.bind, h]

instance : LawfulMonad Outcome := LawfulMonad.mk' Outcome
  (by
    intro α x
    show Outcome.bind x (fun a => Outcome.pure (id a)) = x
    rcases x with ⟨events, result⟩
    cases result <;> simp [Outcome.bind, Outcome.pure, after])
  (by
    intro α β a f
    show Outcome.bind (Outcome.pure a) f = f a
    simp [Outcome.bind, Outcome.pure, after])
  (by
    intro α β γ x f g
    show Outcome.bind (Outcome.bind x f) g = Outcome.bind x fun a => Outcome.bind (f a) g
    rcases x with ⟨events, result⟩
    cases result with
    | error failure => rfl
    | ok a =>
      simp only [Outcome.bind, after]
      cases h : (f a).result <;> simp [List.append_assoc])

def ofParsed (result : Parsed α) : Outcome α := ⟨[], result⟩

instance : MonadLift (Except Failure) Outcome := ⟨ofParsed⟩

def fail (failure : Failure) : Outcome α := ⟨[], .error failure⟩

def report (diagnostic : Diagnostic) : Outcome Unit := ⟨[.report diagnostic], .ok ()⟩

def register (url : String) : Outcome Unit := ⟨[.register url], .ok ()⟩

def diagnostics (x : Outcome α) : List Diagnostic :=
  x.events.filterMap fun
    | .report d => some d
    | .register _ => none

def registered (x : Outcome α) : List String :=
  x.events.filterMap fun
    | .report _ => none
    | .register url => some url

end Outcome

def lexicalEvents (errors : List LexicalError) : List Event :=
  errors.map fun e => .report (.lexical e)

end StyleValue
