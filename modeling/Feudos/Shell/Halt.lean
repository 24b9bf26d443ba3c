import Feudos.Shell.Session

/-!
# When the shell halts

Here nothing is assumed of the keys: they may come at any time, and type lines of any length.

- `run_halt`     : `ksh_exec` always gets a string, and the shell halts at the first line whose
  command panics, and only there;
- `actIn_halted` : a shell that has halted takes no more keys and steps (in `Shell.Session`).
-/

namespace Feudos

open Vga

/-! ## The invariant -/

/-- The array `line` has a terminator from `kbd_readline` until `ksh_exec`. -/
def Terminated (s : Shell) : Prop :=
  match s.pc with
  | .cut len => len < lineSize ∧ s.line.get len = 0
  | .exec => ∃ i, i < lineSize ∧ s.line.get i = 0
  | _ => True

/-- Whether the command of a line panics. -/
def panics (x : Machine × List UInt8) : Bool :=
  !(commandEffect x.1 x.2).returns

/-- All lines have returned, or the last one has panicked and the shell has halted. -/
structure HaltInv (log : List (Machine × List UInt8)) (s : Shell) : Prop where
  terminated : Terminated s
  going : s.pc ≠ .halted → ∀ x ∈ log, panics x = false
  halted : s.pc = .halted →
    ∃ before x, log = before ++ [x] ∧ panics x = true ∧ ∀ y ∈ before, panics y = false

section

variable {log : List (Machine × List UInt8)} {s s' : Shell}

/-- A step that hands nothing to `ksh_exec` and does not halt. -/
theorem HaltInv.goes (h : HaltInv log s) (hpc : s.pc ≠ .halted) (hpc' : s'.pc ≠ .halted)
    (hterminated : Terminated s') : HaltInv log s' where
  terminated := hterminated
  going := fun _ => h.going hpc
  halted := fun hEq => absurd hEq hpc'

/-- `kbd_readline` writes a terminator into the array, whatever it has read. -/
theorem copy_terminated (m : Machine) {startPos : Nat} (hpc : s.pc = .copy startPos) :
    Terminated (s.step m) := by
  simp only [Shell.step, hpc, Terminated]
  refine ⟨?_, ?_⟩
  · have hsize : lineSize = 128 := rfl
    simp only [readlineCopy]
    split <;> omega
  · simp [readlineCopy]

/-- The write behind it leaves one there: at the end of the line, or, if the length is 0, outside
the array. -/
theorem cut_terminated (m : Machine) {len : Nat} (hpc : s.pc = .cut len) (h : Terminated s) :
    Terminated (s.step m) := by
  simp only [Terminated, hpc] at h
  rcases h with ⟨hlen, hnul⟩
  have hlow : len < 128 := hlen
  by_cases hzero : len = 0
  · have hindex : 0 ≠ u64 (len + 2 ^ 64 - 1) := by
      unfold u64
      omega
    rw [hzero] at hnul
    simp only [Shell.step, hpc, Terminated, Buffer.write_get]
    exact ⟨0, Nat.lt_of_le_of_lt (Nat.zero_le _) hlen, by rw [if_neg hindex]; exact hnul⟩
  · have hindex : u64 (len + 2 ^ 64 - 1) = len - 1 := by
      unfold u64
      omega
    simp only [Shell.step, hpc, Terminated, Buffer.write_get, hindex]
    exact ⟨len - 1, Nat.lt_of_le_of_lt (Nat.sub_le _ _) hlen, if_pos rfl⟩

/-- `ksh_exec` gets a string, so it has the effect of a command. -/
theorem exec_effect (m : Machine) (hpc : s.pc = .exec) (h : Terminated s) (t : Terminal) :
    ∃ e, kshExec m t (s.line.slice 0 lineSize) = some e ∧
      e.terminal = (commandEffect m (s.line.toNul lineSize)).apply t ∧
      (e.result = none ↔ (commandEffect m (s.line.toNul lineSize)).returns = false) := by
  simp only [Terminated, hpc] at h
  rcases h with ⟨i, hi, hnul⟩
  rcases toNul_split hi hnul with ⟨hfree, mem, hslice⟩
  rw [hslice]
  exact kshExec_effect m t _ mem hfree

/-- The call of `ksh_exec` halts exactly when the command panics. -/
theorem exec_halt (m : Machine) (hpc : s.pc = .exec) (h : HaltInv log s) :
    HaltInv (log ++ [(m, s.line.toNul lineSize)]) (s.step m) := by
  rcases exec_effect m hpc h.terminated s.kernel.terminal with ⟨e, hexec, -, hresult⟩
  have hbefore := h.going (by rw [hpc]; exact fun hEq => by cases hEq)
  have hnext : (s.step m).pc = if panics (m, s.line.toNul lineSize) then .halted else .running := by
    simp only [Shell.step, hpc, hexec, hresult, panics, Bool.not_eq_true']
  cases hpanics : panics (m, s.line.toNul lineSize) with
  | true =>
      rw [hpanics, if_pos rfl] at hnext
      refine ⟨by simp only [Terminated, hnext], fun hgoes => absurd hnext hgoes, fun _ => ?_⟩
      exact ⟨log, _, rfl, hpanics, hbefore⟩
  | false =>
      rw [hpanics, if_neg Bool.false_ne_true] at hnext
      refine ⟨by simp only [Terminated, hnext], fun _ x hx => ?_, ?_⟩
      · rcases List.mem_append.1 hx with hold | hnew
        · exact hbefore x hold
        · rw [List.mem_singleton.1 hnew]
          exact hpanics
      · rw [hnext]
        exact fun hEq => by cases hEq

theorem step_halt (m : Machine) (h : HaltInv log s) :
    HaltInv (log ++ s.hands (m, .shell)) (s.step m) := by
  by_cases hexec : s.pc = .exec
  · rw [hands_exec hexec]
    exact exec_halt m hexec h
  · rw [hands_nil hexec, List.append_nil]
    have hnext : ∀ {pc : Pc}, s.pc = pc → pc ≠ .halted → (s.step m).pc ≠ .halted →
        Terminated (s.step m) → HaltInv log (s.step m) :=
      fun hEq hpc hpc' hterminated => h.goes (by rw [hEq]; exact hpc) hpc' hterminated
    cases hpc : s.pc with
    | exec =>
        exact absurd hpc hexec
    | halted =>
        have hsame : s.step m = s := by simp only [Shell.step, hpc]
        rw [hsame]
        exact h
    | copy startPos =>
        refine hnext hpc (fun hEq => by cases hEq) ?_ (copy_terminated m hpc)
        simp [Shell.step, hpc]
    | cut len =>
        have hpc' : (s.step m).pc = .exec := by simp only [Shell.step, hpc]
        exact hnext hpc (fun hEq => by cases hEq) (by rw [hpc']; exact fun hEq => by cases hEq)
          (cut_terminated m hpc h.terminated)
    | wait startPos =>
        have htest : (s.step m).pc = .copy startPos ∨ (s.step m).pc = .wait startPos := by
          simp only [Shell.step, hpc]
          split
          · exact Or.inl rfl
          · exact Or.inr rfl
        refine hnext hpc (fun hEq => by cases hEq) ?_ ?_
        · rcases htest with hEq | hEq <;> rw [hEq] <;> exact fun hEq => by cases hEq
        · rcases htest with hEq | hEq <;> simp only [Terminated, hEq]
    | prompt | enter | running =>
        refine hnext hpc (fun hEq => by cases hEq) ?_ ?_
        · simp [Shell.step, hpc]
        · simp [Terminated, Shell.step, hpc]

theorem actIn_halt (a : Machine × Action) (h : HaltInv log s) :
    HaltInv (log ++ s.hands a) (s.actIn a) := by
  rcases a with ⟨m, a⟩
  cases a with
  | shell =>
      exact step_halt m h
  | key sc =>
      have hnone : s.hands (m, .key sc) = [] := if_neg (fun hboth => by cases hboth.2)
      rw [hnone, List.append_nil]
      simp only [Shell.actIn, Shell.act]
      split
      · exact h
      · exact ⟨h.terminated, h.going, h.halted⟩

/-- In every run of `ksh_run`, whatever keys come whenever: the shell has halted exactly if the
command of a line that it has executed panics, and no line is executed behind that one. -/
theorem run_halt (h : HaltInv log s) (acts : List (Machine × Action)) :
    HaltInv (log ++ execLog s acts) (acts.foldl Shell.actIn s) := by
  induction acts generalizing s log with
  | nil =>
      rw [execLog, List.append_nil]
      exact h
  | cons a acts ih =>
      rw [List.foldl_cons, execLog, ← List.append_assoc]
      exact ih (actIn_halt a h)

theorem start_halt (past : Nat → UInt8) (terminal : Terminal) (line : Buffer) :
    HaltInv [] (Shell.start past terminal line) where
  terminated := trivial
  going := fun _ _ hx => absurd hx List.not_mem_nil
  halted := fun hEq => by cases hEq

end

end Feudos
