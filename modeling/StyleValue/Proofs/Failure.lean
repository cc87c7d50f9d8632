import StyleValue.Failure

/-!
# What a computation may end in
-/

set_option autoImplicit false

namespace StyleValue

def Meets {ε α : Type} (failures : ε → Prop) (results : α → Prop) : Except ε α → Prop
  | .ok a => results a
  | .error e => failures e

namespace Meets

variable {ε α β : Type} {failures others : ε → Prop} {results : α → Prop}

theorem mono {weaker : α → Prop} {x : Except ε α} (h : Meets failures results x)
    (hfailures : ∀ e, failures e → others e) (hresults : ∀ a, results a → weaker a) :
    Meets others weaker x := by
  cases x with
  | ok a => exact hresults a h
  | error e => exact hfailures e h

theorem weaken {weaker : α → Prop} {x : Except ε α} (h : Meets failures results x)
    (hresults : ∀ a, results a → weaker a) : Meets failures weaker x :=
  h.mono (fun _ he => he) hresults

theorem pure {a : α} (h : results a) : Meets failures results (Pure.pure a) := h

theorem bind {finals : β → Prop} {x : Except ε α} {f : α → Except ε β}
    (h : Meets failures results x) (hf : ∀ a, results a → Meets failures finals (f a)) :
    Meets failures finals (x >>= f) := by
  cases x with
  | ok a => exact hf a h
  | error e => exact h

/-- A fault of a computation is a failure of what it is part of. -/
theorem parsed {faults : Fault → Prop} {reasons : Failure → Prop} {x : Computed α}
    (h : Meets faults results x) (hreasons : ∀ fault, faults fault → reasons (.fault fault)) :
    Meets reasons results x.parsed := by
  cases x with
  | ok a => exact h
  | error fault => exact hreasons fault h

theorem exists_ok {x : Except ε α} (h : Meets (fun _ => False) results x) :
    ∃ a, x = .ok a ∧ results a := by
  cases x with
  | ok a => exact ⟨a, rfl, h⟩
  | error e => exact h.elim

/-- What a computation ends in, whatever makes it fail. -/
theorem self (x : Except ε α) : Meets (fun _ => True) (fun a => x = .ok a) x := by
  cases x with
  | ok a => exact rfl
  | error e => trivial

theorem of_ok {x : Except ε α} {a : α} (h : Meets failures results x) (hx : x = .ok a) :
    results a := by
  rw [hx] at h
  exact h

end Meets

theorem eq_of_reject_eq {α : Type} {cause other : Rejection}
    (h : (reject cause : Parsed α) = .error (.rejected other)) : cause = other := by
  unfold reject at h
  split at h
  · exact Failure.rejected.inj (Except.error.inj h)
  · cases h

theorem reject_meets {α : Type} {failures : Failure → Prop} {results : α → Prop}
    (cause : Rejection) (h : ∀ failure, failures failure) :
    Meets failures results (reject cause) := by
  unfold reject
  split <;> exact h _

theorem reject_bind {α β : Type} (cause : Rejection) (f : α → Parsed β) :
    reject cause >>= f = reject cause := by
  unfold reject
  split <;> rfl

theorem exists_of_bind_eq_ok {ε α β : Type} {x : Except ε α} {f : α → Except ε β} {b : β}
    (h : x >>= f = .ok b) : ∃ a, x = .ok a ∧ f a = .ok b := by
  cases x with
  | ok a => exact ⟨a, rfl, h⟩
  | error e => cases h

end StyleValue
