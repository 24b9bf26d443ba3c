import Mathlib.Data.List.Basic

/-!
# Guarded runs

A deterministic system is a function `step : σ → α → σ`; a run is `List.foldl step`.  A *guard*
says which actions are admissible in which states.

- `Guarded step ok s as`       : every action of the run is admissible where it is taken;
- `guarded_iff_prefix`         : the same, said of every action and the run before it;
- `guarded_congr`              : two guards that agree in the states a run can reach;
- `Guarded.invariant`          : an invariant that admissible actions keep;
- `foldl_invariant`            : an invariant that all actions keep;
- `not_guarded_foldl`          : a mark that inadmissible actions leave, and none removes;
- `always_iff_guarded`         : an observation that exactly the inadmissible actions spoil.
-/

namespace GuardedRun

variable {σ : Type*} {α : Type*} {step : σ → α → σ} {ok : σ → α → Prop}

/-- A property of all the actions of a run is decided along the run, and not by going through
the type of actions when that is finite. -/
instance (priority := high) decidableForallMem {p : α → Prop} [DecidablePred p] (as : List α) :
    Decidable (∀ a ∈ as, p a) :=
  List.decidableBAll p as

/-- Every action of the run `as` from `s` is admissible in the state it is taken in. -/
def Guarded (step : σ → α → σ) (ok : σ → α → Prop) : σ → List α → Prop
  | _, [] => True
  | s, a :: as => ok s a ∧ Guarded step ok (step s a) as

@[simp] theorem guarded_nil (s : σ) : Guarded step ok s [] := trivial

@[simp] theorem guarded_cons (s : σ) (a : α) (as : List α) :
    Guarded step ok s (a :: as) ↔ ok s a ∧ Guarded step ok (step s a) as := Iff.rfl

/-- Whether a run is guarded can be checked by running it. -/
instance Guarded.decide [∀ s a, Decidable (ok s a)] :
    (s : σ) → (as : List α) → Decidable (Guarded step ok s as)
  | _, [] => .isTrue trivial
  | s, a :: as =>
      have := Guarded.decide (step s a) as
      inferInstanceAs (Decidable (ok s a ∧ Guarded step ok (step s a) as))

theorem guarded_append {s : σ} {as bs : List α} :
    Guarded step ok s (as ++ bs) ↔
      Guarded step ok s as ∧ Guarded step ok (as.foldl step s) bs := by
  induction as generalizing s with
  | nil =>
      simp
  | cons a as ih =>
      simp [ih, and_assoc]

theorem guarded_iff_prefix {s : σ} {as : List α} :
    Guarded step ok s as ↔
      ∀ before a, before ++ [a] <+: as → ok (before.foldl step s) a := by
  constructor
  · rintro h before a ⟨after, rfl⟩
    rw [List.append_assoc, guarded_append] at h
    exact h.2.1
  · intro h
    induction as generalizing s with
    | nil =>
        exact trivial
    | cons a as ih =>
        refine ⟨h [] a (by simp), ih (fun before b hbefore => ?_)⟩
        exact h (a :: before) b (by simpa using hbefore)

theorem Guarded.imp {ok' : σ → α → Prop} (himp : ∀ s a, ok s a → ok' s a) {s : σ} {as : List α}
    (h : Guarded step ok s as) : Guarded step ok' s as := by
  induction as generalizing s with
  | nil =>
      exact trivial
  | cons a as ih =>
      exact ⟨himp s a h.1, ih h.2⟩

/-- The run rule: an invariant of the admissible actions holds at the end of a guarded run. -/
theorem Guarded.invariant {I : σ → Prop} (hstep : ∀ s a, I s → ok s a → I (step s a))
    {s : σ} {as : List α} (hs : I s) (hok : Guarded step ok s as) : I (as.foldl step s) := by
  induction as generalizing s with
  | nil =>
      exact hs
  | cons a as ih =>
      exact ih (hstep s a hs hok.1) hok.2

/-- The run rule without a guard. -/
theorem foldl_invariant {I : σ → Prop} (hstep : ∀ s a, I s → I (step s a))
    {s : σ} {as : List α} (hs : I s) : I (as.foldl step s) := by
  induction as generalizing s with
  | nil =>
      exact hs
  | cons a as ih =>
      exact ih (hstep s a hs)

/-- `I` is an invariant of all actions, and the guards agree where it holds. -/
theorem guarded_congr {ok' : σ → α → Prop} {I : σ → Prop} (hstep : ∀ s a, I s → I (step s a))
    (hiff : ∀ s a, I s → (ok s a ↔ ok' s a)) {s : σ} {as : List α} (hs : I s) :
    Guarded step ok s as ↔ Guarded step ok' s as := by
  induction as generalizing s with
  | nil =>
      exact Iff.rfl
  | cons a as ih =>
      rw [guarded_cons, guarded_cons, hiff s a hs, ih (hstep s a hs)]

/-- A run that is not guarded ends marked, when an inadmissible action marks the state and no
action removes the mark.  `I` is an invariant of the admissible actions. -/
theorem not_guarded_foldl {I M : σ → Prop} (hstep : ∀ s a, I s → ok s a → I (step s a))
    (hmark : ∀ s a, I s → ¬ ok s a → M (step s a))
    (hkeep : ∀ s a, M s → M (step s a))
    {s : σ} {as : List α} (hs : I s) (hbad : ¬ Guarded step ok s as) :
    M (as.foldl step s) := by
  induction as generalizing s with
  | nil =>
      exact absurd trivial hbad
  | cons a as ih =>
      by_cases hok : ok s a
      · exact ih (hstep s a hs hok) (fun h => hbad ⟨hok, h⟩)
      · -- The first inadmissible action marks the state; the rest of the run keeps the mark.
        have hMark : M (as.foldl step (step s a)) :=
          foldl_invariant hkeep (hmark s a hs hok)
        simpa using hMark

/-- An observation `P` that every inadmissible action spoils at once holds all along a run exactly
when the run is guarded.  `I` is an invariant of the admissible actions that implies `P`. -/
theorem always_iff_guarded {I P : σ → Prop} (hstep : ∀ s a, I s → ok s a → I (step s a))
    (hgood : ∀ s, I s → P s) (hbad : ∀ s a, I s → ¬ ok s a → ¬ P (step s a))
    {s : σ} {as : List α} (hs : I s) :
    (∀ before, before <+: as → P (before.foldl step s)) ↔ Guarded step ok s as := by
  induction as generalizing s with
  | nil =>
      constructor
      · intro _
        exact trivial
      · intro _ before hbefore
        rw [List.prefix_nil.1 hbefore]
        exact hgood s hs
  | cons a as ih =>
      constructor
      · intro hall
        -- The state behind the first action shows whether that was admissible.
        have hfirst : P (step s a) := hall [a] (by simp)
        have hok : ok s a := Classical.not_not.1 (fun hnot => hbad s a hs hnot hfirst)
        refine ⟨hok, (ih (hstep s a hs hok)).1 ?_⟩
        intro before hbefore
        exact hall (a :: before) (by simpa using hbefore)
      · rintro ⟨hok, hrest⟩ before hbefore
        rcases List.prefix_cons_iff.1 hbefore with rfl | ⟨before', rfl, htail⟩
        · exact hgood s hs
        · exact (ih (hstep s a hs hok)).2 hrest before' htail

end GuardedRun
