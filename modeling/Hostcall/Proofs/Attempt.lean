/-!
# Attempts

Everything in this library that can be refused is a value of `Except`. This file has the few
facts about such values that the theory needs.

* `bind_eq_ok_iff`, `bind_eq_error_iff`: a sequence succeeds if its parts do, one after the
  other, and fails with the first part that fails.
* `Meets P Q x`: a success of `x` satisfies `P` and a failure satisfies `Q`. Sequences are
  treated part by part with `meets_bind`.
-/

namespace Hostcall.Attempt

theorem bind_eq_ok_iff {ε α β : Type} {x : Except ε α} {f : α → Except ε β} {b : β} :
    x >>= f = .ok b ↔ ∃ a, x = .ok a ∧ f a = .ok b := by
  constructor
  · intro h
    cases x with
    | error e => cases h
    | ok a => exact ⟨a, rfl, h⟩
  · rintro ⟨a, rfl, h⟩
    exact h

theorem bind_eq_error_iff {ε α β : Type} {x : Except ε α} {f : α → Except ε β} {e : ε} :
    x >>= f = .error e ↔ x = .error e ∨ ∃ a, x = .ok a ∧ f a = .error e := by
  constructor
  · intro h
    cases x with
    | error e' =>
      cases h
      exact .inl rfl
    | ok a => exact .inr ⟨a, rfl, h⟩
  · rintro (rfl | ⟨a, rfl, h⟩)
    · rfl
    · exact h

/-- A failure is what is not a success. -/
theorem exists_error_iff {ε α : Type} {x : Except ε α} :
    (∃ e, x = .error e) ↔ ∀ a, x ≠ .ok a := by
  cases x with
  | error e => simp
  | ok a => simp

theorem exists_map_eq_ok_iff {ε α β : Type} {x : Except ε α} {f : α → β} :
    (∃ y, x.map f = .ok y) ↔ ∃ z, x = .ok z := by
  cases x with
  | error e => simp [Except.map]
  | ok z => simp [Except.map]

theorem eq_ok_of_isOk {ε : Type} {x : Except ε Unit} (h : x.isOk = true) : x = .ok () := by
  cases x with
  | error e => cases h
  | ok => rfl

/-- A success satisfies `P` and a failure satisfies `Q`. -/
def Meets {ε α : Type} (P : α → Prop) (Q : ε → Prop) : Except ε α → Prop
  | .ok a => P a
  | .error e => Q e

section

variable {ε α β : Type} {P : α → Prop} {Q : ε → Prop}

theorem meets_pure {a : α} (h : P a) : Meets P Q (pure a) := h

theorem meets_ok {a : α} (h : P a) : Meets P Q (.ok a) := h

theorem meets_error {e : ε} (h : Q e) : Meets P Q (.error e) := h

theorem meets_bind {R : β → Prop} {x : Except ε α} {f : α → Except ε β} (hx : Meets P Q x)
    (hf : ∀ a, P a → Meets R Q (f a)) : Meets R Q (x >>= f) := by
  cases x with
  | error e => exact hx
  | ok a => exact hf a hx

theorem Meets.ok {x : Except ε α} (h : Meets P Q x) {a : α} (hx : x = .ok a) : P a := by
  rw [hx] at h
  exact h

theorem Meets.error {x : Except ε α} (h : Meets P Q x) {e : ε} (hx : x = .error e) : Q e := by
  rw [hx] at h
  exact h

theorem Meets.mono {P' : α → Prop} {Q' : ε → Prop} {x : Except ε α} (h : Meets P Q x)
    (hP : ∀ a, P a → P' a) (hQ : ∀ e, Q e → Q' e) : Meets P' Q' x := by
  cases x with
  | error e => exact hQ e h
  | ok a => exact hP a h

theorem meets_of {x : Except ε α} (hP : ∀ a, x = .ok a → P a) (hQ : ∀ e, x = .error e → Q e) :
    Meets P Q x := by
  cases x with
  | error e => exact hQ e rfl
  | ok a => exact hP a rfl

end

end Hostcall.Attempt
