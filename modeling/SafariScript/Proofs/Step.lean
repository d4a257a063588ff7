/-!
# Steps that carry a state

What a sequence of steps does to the state it starts from. The parser and the interpreter are built from such
steps, so both are opened with these lemmas.
-/

namespace SafariScript

variable {ε σ α β : Type}

theorem bind_apply (p : EStateM ε σ α) (f : α → EStateM ε σ β) (s : σ) :
    (p >>= f) s = match p s with
      | .ok a s' => f a s'
      | .error e s' => .error e s' := by
  cases h : p s <;> simp [bind, EStateM.bind, h]

theorem bind_of_ok {p : EStateM ε σ α} {a : α} {s s₁ : σ} (h : p s = .ok a s₁) (f : α → EStateM ε σ β) :
    (p >>= f) s = f a s₁ := by
  rw [bind_apply, h]

/-- A sequence comes to its end if both steps do. -/
theorem bind_eq_ok {p : EStateM ε σ α} {f : α → EStateM ε σ β} {b : β} {s s' : σ} :
    (p >>= f) s = .ok b s' ↔ ∃ a s₁, p s = .ok a s₁ ∧ f a s₁ = .ok b s' := by
  rw [bind_apply]
  cases p s with
  | ok a s₁ => simp [and_assoc]
  | error e s₁ => simp

/-- A sequence is left where one of the steps is. -/
theorem bind_eq_error {p : EStateM ε σ α} {f : α → EStateM ε σ β} {e : ε} {s s' : σ} :
    (p >>= f) s = .error e s' ↔ p s = .error e s' ∨ ∃ a s₁, p s = .ok a s₁ ∧ f a s₁ = .error e s' := by
  rw [bind_apply]
  cases p s with
  | ok a s₁ => simp [and_assoc]
  | error e s₁ => simp

theorem pure_apply (a : α) (s : σ) : (pure a : EStateM ε σ α) s = .ok a s := rfl

theorem map_apply (f : α → β) (p : EStateM ε σ α) (s : σ) :
    (f <$> p) s = match p s with
      | .ok a s' => .ok (f a) s'
      | .error e s' => .error e s' := by
  cases h : p s <;> simp [Functor.map, EStateM.map, h]

theorem get_apply (s : σ) : (get : EStateM ε σ σ) s = .ok s s := rfl

end SafariScript
