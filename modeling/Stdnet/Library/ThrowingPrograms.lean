import Mathlib.Init

/-!
# Programs that Throw and Keep Their State

An `EStateM ε σ α` is a program over the state `σ` that returns an `α` or throws an `ε`. A throw
does not roll back what was changed before it.

## Main rules

- `run_bind_of_ok`, `run_bind_of_error`: running a sequence.
- `run_on`: running a program on a part of the state.
-/

namespace ThrowingPrograms

variable {ε δ σ τ α β : Type}

/-- The state that a program leaves, whether it returns or throws. -/
def left (x : EStateM ε σ α) (s : σ) : σ :=
  match x.run s with
  | .ok _ s' => s'
  | .error _ s' => s'

theorem left_of_ok {x : EStateM ε σ α} {s s' : σ} {a : α} (h : x.run s = .ok a s') :
    left x s = s' := by
  simp only [left, h]

theorem left_of_error {x : EStateM ε σ α} {s s' : σ} {e : ε} (h : x.run s = .error e s') :
    left x s = s' := by
  simp only [left, h]

/-- A sequence goes on where its first part returned. -/
theorem run_bind_of_ok {x : EStateM ε σ α} {f : α → EStateM ε σ β} {s s' : σ} {a : α}
    (h : x.run s = .ok a s') : (x >>= f).run s = (f a).run s' := by
  rw [EStateM.run_bind, h]

/-- A sequence ends where its first part threw. -/
theorem run_bind_of_error {x : EStateM ε σ α} {f : α → EStateM ε σ β} {s s' : σ} {e : ε}
    (h : x.run s = .error e s') : (x >>= f).run s = .error e s' := by
  rw [EStateM.run_bind, h]

/-- A program on the part of the state that `get` reads and `set` replaces, whose throws become
`raise`. -/
def on (get : τ → σ) (set : τ → σ → τ) (raise : ε → δ) (x : EStateM ε σ α) : EStateM δ τ α :=
  fun t =>
    match x.run (get t) with
    | .ok a s => .ok a (set t s)
    | .error e s => .error (raise e) (set t s)

theorem run_on_of_ok {get : τ → σ} {set : τ → σ → τ} {raise : ε → δ} {x : EStateM ε σ α} {t : τ}
    {s : σ} {a : α} (h : x.run (get t) = .ok a s) :
    (on get set raise x).run t = .ok a (set t s) := by
  simp only [EStateM.run, on] at h ⊢
  rw [h]

end ThrowingPrograms
