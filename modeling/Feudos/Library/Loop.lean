import Mathlib.Logic.Function.Basic

/-!
# Counted loops

`for (i = lo; i < hi; i++) body` as a function on states, and the rules used to reason about it:

- `range_induction` : an invariant indexed by the loop counter;
- `range_frame`     : an observation that no iteration changes;
- `range_invariant` : a property that every iteration keeps, whatever the counter;
- `range_relation`  : a relation between two loops that every pair of iterations keeps.

Nothing here knows what the loops compute.
-/

namespace CountedLoop

variable {σ : Type*} {α : Type*}

/-- The first `n` iterations of `body`, with counters `0, 1, …, n - 1`. -/
def upto : Nat → (Nat → σ → σ) → σ → σ
  | 0, _, s => s
  | n + 1, body, s => body n (upto n body s)

/-- `for (i = lo; i < hi; i++) s = body i s`. -/
def range (lo hi : Nat) (body : Nat → σ → σ) (s : σ) : σ :=
  upto (hi - lo) (fun i => body (lo + i)) s

theorem upto_induction (n : Nat) (body : Nat → σ → σ) (s : σ) (I : Nat → σ → Prop)
    (h0 : I 0 s) (hstep : ∀ i s, i < n → I i s → I (i + 1) (body i s)) :
    I n (upto n body s) := by
  induction n with
  | zero =>
      exact h0
  | succ n ih =>
      have hn : I n (upto n body s) :=
        ih (fun i s hi hI => hstep i s (Nat.lt_succ_of_lt hi) hI)
      exact hstep n _ (Nat.lt_succ_self n) hn

/-- The invariant rule: `I lo` holds before the loop, and iteration `i` takes `I i` to
`I (i + 1)`. -/
theorem range_induction (lo hi : Nat) (body : Nat → σ → σ) (s : σ) (I : Nat → σ → Prop)
    (hle : lo ≤ hi) (h0 : I lo s)
    (hstep : ∀ i s, lo ≤ i → i < hi → I i s → I (i + 1) (body i s)) :
    I hi (range lo hi body s) := by
  have h := upto_induction (hi - lo) (fun i => body (lo + i)) s (fun i s => I (lo + i) s) h0
    (fun i s hi' hI => hstep (lo + i) s (Nat.le_add_right lo i) (by omega) hI)
  have hEnd : lo + (hi - lo) = hi := by omega
  simpa [range, hEnd] using h

/-- A property kept by every iteration holds after the loop; an empty loop changes nothing. -/
theorem range_invariant {lo hi : Nat} {body : Nat → σ → σ} {s : σ} (I : σ → Prop) (h0 : I s)
    (hstep : ∀ i s, lo ≤ i → i < hi → I s → I (body i s)) : I (range lo hi body s) :=
  upto_induction (hi - lo) (fun i => body (lo + i)) s (fun _ s => I s) h0
    (fun i s hi' hI => hstep (lo + i) s (Nat.le_add_right lo i) (by omega) hI)

/-- An observation that no iteration changes is the same after the loop. -/
theorem range_frame {lo hi : Nat} {body : Nat → σ → σ} {s : σ} (obs : σ → α)
    (hstep : ∀ i s, lo ≤ i → i < hi → obs (body i s) = obs s) :
    obs (range lo hi body s) = obs s :=
  range_invariant (fun t => obs t = obs s) rfl
    (fun i t hlo hhi hEq => (hstep i t hlo hhi).trans hEq)

/-- Two loops that run side by side: related states stay related. -/
theorem range_relation {τ : Type*} {lo hi : Nat} {body : Nat → σ → σ} {body' : Nat → τ → τ}
    (R : σ → τ → Prop) {s : σ} {s' : τ} (h0 : R s s')
    (hstep : ∀ i t t', lo ≤ i → i < hi → R t t' → R (body i t) (body' i t')) :
    R (range lo hi body s) (range lo hi body' s') := by
  have hupto : ∀ n, n ≤ hi - lo →
      R (upto n (fun i => body (lo + i)) s) (upto n (fun i => body' (lo + i)) s') := by
    intro n
    induction n with
    | zero =>
        intro _
        exact h0
    | succ n ih =>
        intro hn
        exact hstep (lo + n) _ _ (Nat.le_add_right lo n) (by omega) (ih (Nat.le_of_succ_le hn))
  exact hupto (hi - lo) (Nat.le_refl _)

end CountedLoop
