/-!
# Steps with a state that survives errors

Readers of payloads and streams, writers and the tree of keys are all steps of one shape: a step
changes a state and gives a value or an error, and the state it leaves is kept in both cases.  They
are written in the monad `EStateM`, and what is used of it in proofs is collected here:

* `bind_eq_ok_iff` and `bind_eq_error_iff` take two steps in a row apart, `map_eq_ok_iff` a step
  and what is made of its value.
* `Stateful.ofExcept` turns a computation that may fail into a step that leaves the state alone.
-/

set_option autoImplicit false

namespace Bitcoin.Stateful

variable {ε σ α β : Type}

/-- Two steps in a row succeed if both do, the second in the state that the first leaves. -/
theorem bind_eq_ok_iff {x : EStateM ε σ α} {f : α → EStateM ε σ β} {b : β} {s u : σ} :
    (x >>= f) s = .ok b u ↔ ∃ a t, x s = .ok a t ∧ f a t = .ok b u := by
  rw [show (x >>= f) s = _ from EStateM.run_bind x f]
  cases h : x.run s with
  | ok a t =>
    have hx : x s = .ok a t := h
    simp [hx, EStateM.run, and_assoc]
  | error e t =>
    have hx : x s = .error e t := h
    simp [hx]

/-- Two steps in a row fail if the first does, or the second in the state that the first leaves. -/
theorem bind_eq_error_iff {x : EStateM ε σ α} {f : α → EStateM ε σ β} {e : ε} {s u : σ} :
    (x >>= f) s = .error e u ↔ x s = .error e u ∨ ∃ a t, x s = .ok a t ∧ f a t = .error e u := by
  rw [show (x >>= f) s = _ from EStateM.run_bind x f]
  cases h : x.run s with
  | ok a t =>
    have hx : x s = .ok a t := h
    simp [hx, EStateM.run, and_assoc]
  | error e t =>
    have hx : x s = .error e t := h
    simp [hx]

/-- What two steps in a row do once it is known what the first does. -/
theorem bind_of_eq_ok {x : EStateM ε σ α} {f : α → EStateM ε σ β} {a : α} {s t : σ}
    (h : x s = .ok a t) : (x >>= f) s = f a t := by
  show EStateM.bind x f s = f a t
  rw [EStateM.bind, h]

theorem bind_of_eq_error {x : EStateM ε σ α} {f : α → EStateM ε σ β} {e : ε} {s t : σ}
    (h : x s = .error e t) : (x >>= f) s = .error e t :=
  bind_eq_error_iff.2 (.inl h)

/-- A step whose value is passed through a function succeeds if the step does. -/
theorem map_eq_ok_iff {x : EStateM ε σ α} {f : α → β} {b : β} {s t : σ} :
    (f <$> x) s = .ok b t ↔ ∃ a, x s = .ok a t ∧ f a = b := by
  show EStateM.map f x s = .ok b t ↔ _
  unfold EStateM.map
  cases x s with
  | ok a u => simp [and_assoc, and_comm]
  | error e u => simp

/-- A step that gives a value and leaves the state alone. -/
theorem pure_apply (a : α) (s : σ) : (pure a : EStateM ε σ α) s = .ok a s := rfl

/-- A computation that may fail, as a step that leaves the state alone. -/
def ofExcept (x : Except ε α) : EStateM ε σ α := fun s =>
  match x with
  | .ok a => .ok a s
  | .error e => .error e s

theorem ofExcept_eq_ok_iff {x : Except ε α} {a : α} {s t : σ} :
    (ofExcept x : EStateM ε σ α) s = .ok a t ↔ x = .ok a ∧ s = t := by
  cases x <;> simp [ofExcept]

theorem ofExcept_eq_error_iff {x : Except ε α} {e : ε} {s t : σ} :
    (ofExcept x : EStateM ε σ α) s = .error e t ↔ x = .error e ∧ s = t := by
  cases x <;> simp [ofExcept]

end Bitcoin.Stateful
