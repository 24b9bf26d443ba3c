import Feudos.Shell.Session

/-!
# Every line is executed

The lines executed are the first of the lines typed; here, that the shell falls behind by one line
at most, and not for longer than it takes to copy and cut it.

- `Shell.behind`   : the steps of the loop until all complete lines are handed to `ksh_exec`;
- `step_behind`    : every step of the loop is one of them;
- `run_catches_up` : what is complete is executed in a run that is long enough;
- `lines_in_hand`  : so four steps are enough, wherever the keys and the ticks come.
-/

namespace Feudos

open Vga GuardedRun

/-! ## The way to `ksh_exec` -/

/-- The steps from a point of the loop, with a complete line, to the call of `ksh_exec`. -/
def Pc.left : Pc → Nat
  | .wait _ => 4
  | .copy _ => 3
  | .cut _ => 2
  | .exec => 1
  | .prompt | .enter | .running | .halted => 0

theorem left_le (pc : Pc) : pc.left ≤ 4 := by
  cases pc <;> simp [Pc.left]

/-- The steps until all the lines `done` are executed. -/
def Shell.behind (s : Shell) (done : List (List UInt8)) : Nat :=
  if done.length ≤ s.executed.length then 0 else s.pc.left

section

variable {s : Shell} {x : List (List UInt8) × List UInt8} {done : List (List UInt8)}

theorem behind_zero (h : done.length ≤ s.executed.length) : s.behind done = 0 := if_pos h

theorem behind_le (s : Shell) (done : List (List UInt8)) : s.behind done ≤ s.pc.left := by
  unfold Shell.behind
  split
  · exact Nat.zero_le _
  · exact Nat.le_refl _

/-- One line more than those executed. -/
theorem behind_line (s : Shell) (l : List UInt8) :
    s.behind (s.executed ++ [l]) = s.pc.left :=
  if_neg (by simp)

/-- All complete lines are executed, or there is one more, and the loop is on its way to
`ksh_exec`. -/
theorem ReadInv.lines (m : Machine) (h : ReadInv s x) :
    s.pc = .halted ∨ (s.pc ≠ .exec ∧ x.1 = s.executed) ∨
      ∃ l, x.1 = s.executed ++ [l] ∧ s.pc.left ≠ 0 ∧
        (s.pc = .exec ∨ (s.step m).pc.left = s.pc.left - 1) := by
  unfold ReadInv at h
  cases hpc : s.pc with
  | prompt | enter | running =>
      simp only [hpc] at h
      exact Or.inr (Or.inl ⟨by decide, congrArg Prod.fst h⟩)
  | wait startPos =>
      simp only [hpc] at h
      cases h with
      | partly _ _ _ =>
          exact Or.inr (Or.inl ⟨(fun hEq => by cases hEq), rfl⟩)
      | @complete b₀ l hstart hholds _ =>
          -- The exit condition holds.
          have htest := readlineTest_complete hholds
          rw [hstart] at htest
          have hnext : (s.step m).pc = .copy startPos := by
            simp only [Shell.step, hpc, htest, if_true]
          exact Or.inr (Or.inr ⟨l, rfl, Nat.succ_ne_zero _, Or.inr (by rw [hnext]; rfl)⟩)
  | copy startPos =>
      simp only [hpc] at h
      rcases h with ⟨b₀, l, -, -, -, rfl⟩
      have hnext : (s.step m).pc =
          .cut (readlineCopy s.kernel s.line lineSize startPos).len := by
        simp only [Shell.step, hpc]
      exact Or.inr (Or.inr ⟨l, rfl, Nat.succ_ne_zero _, Or.inr (by rw [hnext]; rfl)⟩)
  | cut len =>
      simp only [hpc] at h
      rcases h with ⟨l, -, -, -, rfl⟩
      have hnext : (s.step m).pc = .exec := by simp only [Shell.step, hpc]
      exact Or.inr (Or.inr ⟨l, rfl, Nat.succ_ne_zero _, Or.inr (by rw [hnext]; rfl)⟩)
  | exec =>
      simp only [hpc] at h
      rcases h with ⟨l, -, rfl⟩
      exact Or.inr (Or.inr ⟨l, rfl, Nat.succ_ne_zero _, Or.inl rfl⟩)
  | halted =>
      exact Or.inl rfl

/-- A shell that is not behind has executed all complete lines, unless it has halted. -/
theorem caught_up (m : Machine) (h : ReadInv s x) (hbehind : s.behind x.1 = 0) :
    s.pc = .halted ∨ x.1 = s.executed := by
  rcases h.lines m with hhalted | ⟨-, hdone⟩ | ⟨l, hline, hleft, -⟩
  · exact Or.inl hhalted
  · exact Or.inr hdone
  · rw [hline, behind_line] at hbehind
    exact absurd hbehind hleft

/-- While the shell listens, no complete line is left. -/
theorem listens_caught_up (h : ReadInv s x) (hhalted : s.pc ≠ .halted)
    (hlistens : s.listens = true) : x.1 = s.executed := by
  rcases Shell.listens_waits hhalted hlistens with ⟨startPos, hpc⟩
  simp only [ReadInv, hpc] at h
  cases h with
  | partly _ _ _ =>
      rfl
  | complete hstart hholds _ =>
      have htest := readlineTest_complete hholds
      rw [hstart] at htest
      simp [Shell.listens, hpc, htest] at hlistens

/-! ## Steps and runs -/

/-- Every step of the loop brings the line nearer to `ksh_exec`. -/
theorem step_behind (m : Machine) (h : ReadInv s x) :
    (s.step m).behind x.1 ≤ s.behind x.1 - 1 := by
  rcases h.lines m with hhalted | ⟨hexec, hdone⟩ | ⟨l, hline, -, hexec | hleft⟩
  · have hsame : s.step m = s := by simp only [Shell.step, hhalted]
    have hzero : s.behind x.1 ≤ 0 := by
      have hle := behind_le s x.1
      rw [hhalted] at hle
      exact hle
    rw [hsame, Nat.le_zero.1 hzero]
  · rw [behind_zero (by rw [step_executed_same m hexec, hdone])]
    exact Nat.zero_le _
  · rw [behind_zero (by rw [step_executed_exec m hexec, hline]; simp)]
    exact Nat.zero_le _
  · calc
      (s.step m).behind x.1
          ≤ (s.step m).pc.left := behind_le _ _
      _ = s.pc.left - 1 := hleft
      _ = s.behind x.1 - 1 := by rw [hline, behind_line]

/-- The steps of the shell in a run. -/
def shellSteps : List (Machine × Action) → Nat
  | [] => 0
  | (_, .shell) :: acts => shellSteps acts + 1
  | (_, .key _) :: acts => shellSteps acts

theorem executed_extends (s : Shell) (acts : List (Machine × Action)) :
    s.executed <+: (acts.foldl Shell.actIn s).executed :=
  ⟨_, (execLog_executed s acts).symm⟩

/-- What is complete at the start of a run is executed in it, if the run is long enough. -/
theorem run_catches_up {acts : List (Machine × Action)} (h : ReadInv s x)
    (hlines : ∀ l ∈ x.1, l.length ≤ 126)
    (hok : Guarded Shell.actIn (fun s a => InTime s a.2) s acts)
    (hsteps : s.behind x.1 ≤ shellSteps acts) :
    (acts.foldl Shell.actIn s).pc = .halted ∨ x.1 <+: (acts.foldl Shell.actIn s).executed := by
  induction acts generalizing s with
  | nil =>
      refine (caught_up resetMachine h (Nat.le_zero.1 hsteps)).imp_right (fun hdone => ?_)
      rw [hdone]
      exact List.prefix_refl _
  | cons a acts ih =>
      by_cases hhalted : s.pc = .halted
      · rw [(run_halted hhalted (a :: acts)).1]
        exact Or.inl hhalted
      · rcases a with ⟨m, a⟩
        cases a with
        | shell =>
            have hbehind := step_behind m h
            simp only [shellSteps] at hsteps
            exact ih (step_inv m hlines h) hok.2
              (Nat.le_trans hbehind (Nat.sub_le_of_le_add hsteps))
        | key sc =>
            have hact : s.actIn (m, .key sc) = { s with kernel := kbdHandleScancode s.kernel sc } :=
              if_neg hhalted
            rcases hok.1 with hnothing | hlistens
            · -- The key types nothing.
              have hbuf := kbdHandleScancode_kbdBuf s.kernel sc
              rw [hnothing] at hbuf
              have hstep : ReadInv (s.actIn (m, .key sc)) x := hact ▸ h.of_kbdBuf hbuf
              exact ih hstep hok.2 (by rw [hact]; exact hsteps)
            · rw [listens_caught_up h hhalted hlistens]
              exact Or.inr (executed_extends s _)

end

/-! ## From the start of `ksh_run` -/

/-- The first keys type the first characters, and complete the first lines. -/
theorem typed_extends {scs scs' : List UInt8} (h : scs <+: scs') (shiftHeld : Bool) :
    typed shiftHeld scs <+: typed shiftHeld scs' := by
  rcases h with ⟨rest, rfl⟩
  rw [typed_append]
  exact List.prefix_append _ _

theorem typedLines_extends {text text' : List UInt8} (h : text <+: text') :
    typedLines text <+: typedLines text' := by
  rcases h with ⟨rest, rfl⟩
  rw [typedLines, typedLines, List.foldl_append]
  exact feed_extends _ rest

theorem keysOf_append (acts acts' : List Action) :
    keysOf (acts ++ acts') = keysOf acts ++ keysOf acts' := by
  induction acts with
  | nil =>
      rfl
  | cons a acts ih =>
      cases a <;> simp [keysOf, ih]

theorem shellSteps_append (acts acts' : List (Machine × Action)) :
    shellSteps (acts ++ acts') = shellSteps acts + shellSteps acts' := by
  induction acts with
  | nil =>
      simp [shellSteps]
  | cons a acts ih =>
      rcases a with ⟨m, a⟩
      cases a <;> simp [shellSteps, ih, Nat.add_right_comm]

theorem reads_kept :
    KeptByTyping (fun _ => True) (fun l => l.length ≤ 126) (fun _ x s => ReadInv s x) where
  read := id
  step := fun _ hlines h => step_inv _ hlines h
  key := fun m hhalted hkey hroom hok h => (key_step m hhalted hkey hroom hok h).1
  halted := fun hhalted h text => by
    simp only [ReadInv, hhalted] at h ⊢
    exact h.trans (feed_extends _ text)

/-- What the shell has in hand at the end of a run. -/
theorem run_reads (past : Nat → UInt8) (terminal : Terminal) (line : Buffer)
    {acts : List (Machine × Action)}
    (hkeys : ∀ c ∈ typed false (keysOf (acts.map Prod.snd)), Printable c ∨ c = 10)
    (hlines : ∀ l ∈ typedLines (typed false (keysOf (acts.map Prod.snd))), l.length ≤ 126)
    (htotal : (typed false (keysOf (acts.map Prod.snd))).length < 2047)
    (hok : Guarded Shell.actIn (fun s a => InTime s a.2) (Shell.start past terminal line) acts) :
    ReadInv (acts.foldl Shell.actIn (Shell.start past terminal line))
      ((typed false (keysOf (acts.map Prod.snd))).foldl feed ([], [])) := by
  have hpos : (Shell.start past terminal line).kernel.kbdBuf.pos = 0 := rfl
  have hstart : ReadInv (Shell.start past terminal line) ([], []) := rfl
  exact @KeptByTyping.run [] ([], []) _ _ _ _ reads_kept acts hstart (fun _ _ => trivial) hkeys
    hlines
    (by rw [hpos, Nat.zero_add]; exact htotal) hok

/-- In every run of `ksh_run` as in `executed_prefix_typed`: the lines that are complete four steps
of the loop before its end are executed, or the shell has halted. -/
theorem lines_in_hand (past : Nat → UInt8) (terminal : Terminal) (line : Buffer)
    (acts more : List (Machine × Action))
    (hkeys : ∀ c ∈ typed false (keysOf ((acts ++ more).map Prod.snd)), Printable c ∨ c = 10)
    (hlines : ∀ l ∈ typedLines (typed false (keysOf ((acts ++ more).map Prod.snd))), l.length ≤ 126)
    (htotal : (typed false (keysOf ((acts ++ more).map Prod.snd))).length < 2047)
    (hok : Guarded Shell.actIn (fun s a => InTime s a.2) (Shell.start past terminal line)
      (acts ++ more))
    (hsteps : 4 ≤ shellSteps more) :
    let s := (acts ++ more).foldl Shell.actIn (Shell.start past terminal line)
    s.executed <+: typedLines (typed false (keysOf ((acts ++ more).map Prod.snd))) ∧
      (s.pc = .halted ∨ typedLines (typed false (keysOf (acts.map Prod.snd))) <+: s.executed) := by
  have hfirst : typed false (keysOf (acts.map Prod.snd)) <+:
      typed false (keysOf ((acts ++ more).map Prod.snd)) := by
    rw [List.map_append, keysOf_append]
    exact typed_extends (List.prefix_append _ _) false
  have hlines' : ∀ l ∈ typedLines (typed false (keysOf (acts.map Prod.snd))), l.length ≤ 126 :=
    fun l hl => hlines l ((typedLines_extends hfirst).subset hl)
  rcases guarded_append.1 hok with ⟨hbefore, hbehind⟩
  have hread := run_reads past terminal line (fun c hc => hkeys c (hfirst.subset hc)) hlines'
    (Nat.lt_of_le_of_lt hfirst.length_le htotal) hbefore
  refine ⟨(run_reads past terminal line hkeys hlines htotal hok).executed_first, ?_⟩
  rw [List.foldl_append]
  exact run_catches_up hread hlines' hbehind
    (Nat.le_trans (behind_le _ _) (Nat.le_trans (left_le _) hsteps))

end Feudos
