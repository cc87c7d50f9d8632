import StyleValue.Outcome

/-!
# Events and results of an operation

What holds of every event of an operation's parts holds of every event of the operation, be it a
sequence or a loop. A part counts only for the results that the parts before it do have.
-/

set_option autoImplicit false

namespace StyleValue

namespace Outcome

variable {α β : Type} {property weaker : Event → Prop}

def Emits (property : Event → Prop) (x : Outcome α) : Prop := ∀ e ∈ x.events, property e

theorem emits_pure (a : α) : Emits property (pure a : Outcome α) := by
  intro e he
  cases he

theorem emits_ofParsed (result : Parsed α) : Emits property (ofParsed result) := by
  intro e he
  cases he

theorem emits_fail (failure : Failure) : Emits property (fail failure : Outcome α) := by
  intro e he
  cases he

theorem emits_report {d : Diagnostic} (h : property (.report d)) : Emits property (report d) := by
  intro e he
  rw [List.mem_singleton.1 he]
  exact h

theorem emits_register {url : String} (h : property (.register url)) :
    Emits property (register url) := by
  intro e he
  rw [List.mem_singleton.1 he]
  exact h

theorem Emits.mono {x : Outcome α} (h : x.Emits property) (himp : ∀ e, property e → weaker e) :
    x.Emits weaker := fun e he => himp e (h e he)

theorem Emits.bind {x : Outcome α} {f : α → Outcome β} (hx : x.Emits property)
    (hf : ∀ a, x.result = .ok a → (f a).Emits property) : (x >>= f).Emits property := by
  cases hresult : x.result with
  | ok a =>
    rw [bind_of_ok hresult]
    intro e he
    rcases List.mem_append.1 he with he | he
    · exact hx e he
    · exact hf a hresult e he
  | error failure =>
    rw [bind_of_error hresult]
    exact hx

theorem Emits.map {x : Outcome α} (hx : x.Emits property) (f : α → β) :
    (do return f (← x) : Outcome β).Emits property :=
  hx.bind fun _ _ => emits_pure _

theorem emits_mapM {f : α → Outcome β} {as : List α} (h : ∀ a ∈ as, (f a).Emits property) :
    (as.mapM f).Emits property := by
  induction as with
  | nil => exact emits_pure []
  | cons a as ih =>
    obtain ⟨ha, has⟩ := List.forall_mem_cons.1 h
    rw [List.mapM_cons]
    exact ha.bind fun _ _ => (ih has).bind fun _ _ => emits_pure _

theorem exists_of_bind {x : Outcome α} {f : α → Outcome β} {b : β}
    (h : (x >>= f).result = .ok b) : ∃ a, x.result = .ok a ∧ (f a).result = .ok b := by
  cases hx : x.result with
  | ok a =>
    rw [bind_of_ok hx] at h
    exact ⟨a, rfl, h⟩
  | error failure =>
    rw [bind_of_error hx] at h
    cases h

/-- What is read goes on as it is, without an event. -/
theorem bind_lift_of_ok {x : Parsed α} {a : α} (h : x = .ok a) (f : α → Outcome β) :
    (do f (← x) : Outcome β) = f a := by
  rw [h]
  rfl

/-- What is made of the result alone leaves the events as they are. -/
theorem bind_pure_eq (x : Outcome α) (f : α → β) :
    (do return f (← x) : Outcome β) = ⟨x.events, x.result.map f⟩ := by
  cases hx : x.result with
  | ok a =>
    rw [bind_of_ok hx]
    simp [after, pure, Outcome.pure, Except.map]
  | error failure =>
    rw [bind_of_error hx]
    rfl

/-- An operation all of whose events are reports registers nothing. -/
theorem Emits.registered_eq_nil {x : Outcome α} (h : x.Emits fun e => ∃ d, e = .report d) :
    x.registered = [] := by
  refine List.filterMap_eq_nil_iff.2 fun e he => ?_
  obtain ⟨d, rfl⟩ := h e he
  rfl

end Outcome

end StyleValue
