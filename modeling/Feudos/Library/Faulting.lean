import Mathlib.Order.Defs.Unbundled

/-!
# Programs that may fault

A program over a state that an exception may stop is an `EStateM`: it ends with a value or with the
exception, and either way in the state it has come to.

- `ended`        : the state at the end, after a value or an exception;
- `bind_of_ok`   : a program goes on behind a value;
- `bind_of_error`: it ends with the first exception;
- `Moves R`      : the program ends in a state related to the one it starts in;
- `Moves.bind`   : what holds of every part holds of the whole, for a transitive relation.
-/

namespace Faulting

variable {ε σ α β : Type}

/-- The state at the end. -/
def ended : EStateM.Result ε σ α → σ
  | .ok _ s => s
  | .error _ s => s

@[simp] theorem ended_ok (a : α) (s : σ) : ended (.ok a s : EStateM.Result ε σ α) = s := rfl

@[simp] theorem ended_error (e : ε) (s : σ) :
    ended (.error e s : EStateM.Result ε σ α) = s := rfl

variable {x : EStateM ε σ α} {f : α → EStateM ε σ β} {s s' : σ}

theorem bind_of_ok {a : α} (h : x s = .ok a s') : (x >>= f) s = f a s' := by
  show EStateM.bind x f s = f a s'
  rw [EStateM.bind, h]

theorem bind_of_error {e : ε} (h : x s = .error e s') : (x >>= f) s = .error e s' := by
  show EStateM.bind x f s = .error e s'
  rw [EStateM.bind, h]

/-! ## Relations between the ends -/

/-- From every state the program ends in a related one. -/
def Moves (R : σ → σ → Prop) (x : EStateM ε σ α) : Prop :=
  ∀ s, R s (ended (x s))

variable {R : σ → σ → Prop} {g : σ → σ}

theorem Moves.pure [Std.Refl R] (a : α) : Moves R (Pure.pure a : EStateM ε σ α) :=
  fun s => refl_of R s

theorem Moves.throw [Std.Refl R] (e : ε) : Moves R (throw e : EStateM ε σ α) :=
  fun s => refl_of R s

theorem Moves.modify (hf : ∀ s, R s (g s)) : Moves R (modify g : EStateM ε σ PUnit) :=
  hf

theorem Moves.bind [IsTrans σ R] (hx : Moves R x) (hf : ∀ a, Moves R (f a)) :
    Moves R (x >>= f) := by
  intro s
  have hfirst := hx s
  cases h : x s with
  | ok a s' =>
      rw [h] at hfirst
      rw [bind_of_ok h]
      exact trans_of R hfirst (hf a s')
  | error e s' =>
      rw [h] at hfirst
      rw [bind_of_error h]
      exact hfirst

end Faulting
