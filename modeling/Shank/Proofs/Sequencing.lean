/-
# What a sequence comes to

The lemmas by which computations in a row are taken apart: for computations that
can fail, and for those that also carry a state, the runs and the parsers.

The lemmas that compute go by what the first part comes to; those about success
say that both parts succeed, and where the second starts.
-/

namespace Shank

/-- What a computation of two parts comes to without an error, each part comes
to. -/
theorem Except.bind_ok {ε α β : Type} {x : Except ε α} {g : α → Except ε β} {b : β}
    (h : (x >>= g) = .ok b) : ∃ a, x = .ok a ∧ g a = .ok b := by
  cases x with
  | ok a => exact ⟨a, rfl, h⟩
  | error e => cases h

/-- A result that a function was applied to is the image of one. -/
theorem Except.map_ok {ε α β : Type} {x : Except ε α} {g : α → β} {b : β}
    (h : g <$> x = .ok b) : ∃ a, x = .ok a ∧ g a = b := by
  cases x with
  | ok a => cases h; exact ⟨a, rfl, rfl⟩
  | error e => cases h

section State

variable {ε σ α β : Type}

/-- Two parts in a row: the second starts in the state that the first leaves,
unless that ended with an error. -/
theorem bind_apply (x : EStateM ε σ α) (f : α → EStateM ε σ β) (s : σ) :
    (x >>= f) s = match x s with
      | .ok a s' => f a s'
      | .error e s' => .error e s' := by
  cases h : x s <;> simp only [bind, EStateM.bind, h]

/-- What succeeds in two parts succeeds in each. -/
theorem bind_ok {x : EStateM ε σ α} {f : α → EStateM ε σ β} {s s' : σ} {b : β}
    (h : (x >>= f) s = .ok b s') : ∃ a s₁, x s = .ok a s₁ ∧ f a s₁ = .ok b s' := by
  rw [bind_apply] at h
  cases hx : x s with
  | ok a s₁ =>
    rw [hx] at h
    exact ⟨a, s₁, rfl, h⟩
  | error e s₁ =>
    rw [hx] at h
    cases h

/-- Parts that succeed make a sequence that succeeds. -/
theorem bind_eq {x : EStateM ε σ α} {f : α → EStateM ε σ β} {s s₁ : σ} {a : α}
    (h : x s = .ok a s₁) : (x >>= f) s = f a s₁ := by
  rw [bind_apply, h]

end State
end Shank
