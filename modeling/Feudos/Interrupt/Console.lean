import Feudos.Interrupt.Delivery
import Feudos.Shell.Halt
import Feudos.Shell.Progress

/-!
# Keys in, screen out

The two halves together, from `kernel_main` on: what `Interrupt.Delivery` says of the keys, and what
`Shell.Session` says of the screen.

- `timed_machine`    : the machines on which the shell's commands run;
- `system_on_screen` : the screen shows the messages of the boot and the session of the keys;
- `lines_executed`   : every line that is complete is executed, four steps of the shell later;
- `panic_halts`      : what halts the system, and that it stays halted.
-/

namespace Feudos
namespace Interrupt

open Devices Vga GuardedRun WordStack

/-! ## The machines of a run -/

/-- The shell's machine is the one of the boot, with the ticks so far and whatever lies behind its
arrays. -/
theorem timed_machine {m : Machine} {es : List Event} {a : Machine × Action} (ha : a ∈ timed m es) :
    (∃ ticks, a.1 = { m with ticks := ticks }) ∨
      ∃ ticks stack, .shell stack ∈ es ∧ a.1 = { m with ticks := ticks, stack := stack } := by
  induction es generalizing m with
  | nil =>
      exact absurd ha List.not_mem_nil
  | cons e es ih =>
      have hrest : ∀ {t}, a ∈ timed { m with ticks := t } es →
          (∃ ticks, a.1 = { m with ticks := ticks }) ∨
            ∃ ticks stack, .shell stack ∈ e :: es ∧
              a.1 = { m with ticks := ticks, stack := stack } := by
        intro t ha
        rcases ih ha with ⟨ticks, hEq⟩ | ⟨ticks, stack, hmem, hEq⟩
        · exact Or.inl ⟨ticks, hEq⟩
        · exact Or.inr ⟨ticks, stack, List.mem_cons_of_mem _ hmem, hEq⟩
      cases e with
      | tick =>
          exact hrest ha
      | key sc =>
          rcases List.mem_cons.1 ha with rfl | ha
          · exact Or.inl ⟨m.ticks, rfl⟩
          · exact hrest ha
      | shell stack =>
          rcases List.mem_cons.1 ha with rfl | ha
          · exact Or.inr ⟨m.ticks, stack, List.mem_cons_self .., rfl⟩
          · exact hrest ha

theorem event_shell {s : System} {a : SysAction} {stack : List UInt8}
    (h : .shell stack ∈ s.event a) : a = .shell stack := by
  cases a with
  | handle x cr2 =>
      rw [System.event] at h
      split at h
      · simp at h
      · split at h <;> simp at h
  | shell stack' =>
      rw [System.event] at h
      split at h
      · obtain rfl : stack = stack' := by simpa using h
        rfl
      · simp at h
  | raise l | lower l | press b | accept | acknowledge =>
      simp [System.event] at h

theorem eventsOf_shell {s : System} {acts : List SysAction} {stack : List UInt8}
    (h : .shell stack ∈ eventsOf s acts) : .shell stack ∈ acts := by
  induction acts generalizing s with
  | nil =>
      simp [eventsOf] at h
  | cons a acts ih =>
      rcases List.mem_append.1 h with hnow | hlater
      · rw [event_shell hnow]
        exact List.mem_cons_self ..
      · cases hact : s.act a with
        | none =>
            simp [hact] at hlater
        | some s' =>
            rw [hact] at hlater
            exact List.mem_cons_of_mem _ (ih hlater)

/-! ## What is handled is typed -/

/-- The strings of the CPU have no backspace, whatever lies behind the array. -/
def PowerOn.PlainCpu (m : PowerOn) (acts : List SysAction) : Prop :=
  m.machine.Plain ∧
    ∀ stack, SysAction.shell stack ∈ acts → ({ m.machine with stack := stack } : Machine).Plain

/-- The actions of the shell in a run. -/
def PowerOn.shellRun (m : PowerOn) (acts : List SysAction) : List (Machine × Action) :=
  timed m.system.machine (eventsOf m.system acts)

theorem shellRun_plain {m : PowerOn} {acts : List SysAction} (h : m.PlainCpu acts) :
    ∀ a ∈ m.shellRun acts, a.1.Plain := by
  intro a ha
  rcases timed_machine ha with ⟨ticks, hEq⟩ | ⟨ticks, stack, hmem, hEq⟩
  · rw [hEq]
    exact h.1
  · rw [hEq]
    exact h.2 stack (eventsOf_shell hmem)

/-- The bytes handled are the first that came; none, if the keyboard is not heard. -/
theorem handled_first (m : PowerOn) (acts : List SysAction) :
    keysIn (eventsOf m.system acts) <+: pressesOf acts := by
  rcases run_sound m.system_sound acts with ⟨s, -, -, -, hkeys⟩
  have hsound := m.system_sound
  have hwaiting : m.system.platform.keyboard.queue = m.platform.keyboard.queue := rfl
  by_cases hqueue : m.platform.keyboard.queue = []
  · rw [hwaiting, hqueue, List.nil_append] at hkeys
    exact ⟨_, hkeys⟩
  · rw [decide_eq_false hqueue] at hsound
    rw [dead_run hsound acts]
    exact List.nil_prefix

/-- The shell's part of a run, and its terminal. -/
theorem shell_on_screen (m : PowerOn) (acts : List SysAction) (hf : m.framebuffer.Usable)
    (hplain : m.PlainCpu acts)
    (hkeys : ∀ c ∈ typed false (pressesOf acts), Printable c ∨ c = 10)
    (hlines : ∀ l ∈ typedLines (typed false (pressesOf acts)), l.length ≤ 126)
    (htotal : (typed false (pressesOf acts)).length < 2047)
    (hok : Guarded Shell.actIn (fun s a => InTime s a.2) m.system.shell (m.shellRun acts)) :
    let shell := (m.shellRun acts).foldl Shell.actIn m.system.shell
    let log := execLog m.system.shell (m.shellRun acts)
    let text := typed false (keysIn (eventsOf m.system acts))
    shell.executed = log.map Prod.snd ∧
      shell.executed <+: typedLines (typed false (pressesOf acts)) ∧
      Displays m.framebuffer shell.kernel.terminal
        (session (inColour defTextCol bootText) log ++
          shell.pc.pending (unread shell.executed (text.foldl feed ([], [])))) := by
  have hfirst := typed_extends (handled_first m acts) false
  have hsame : keysOf ((m.shellRun acts).map Prod.snd) = keysIn (eventsOf m.system acts) :=
    keysOf_timed _ _
  have hcolour : (putText (started m.framebuffer m.pixels defTextCol)
      (inColour defTextCol bootText)).textColor = defTextCol := putText_textColor _ _
  have hscreen := session_on_screen m.past _ m.line (m.shellRun acts) hf
    (boot_prints hf m.pixels) hcolour (shellRun_plain hplain)
    (by rw [hsame]; exact fun c hc => hkeys c (hfirst.subset hc))
    (by rw [hsame]; exact fun l hl => hlines l ((typedLines_extends hfirst).subset hl))
    (by rw [hsame]; exact Nat.lt_of_le_of_lt hfirst.length_le htotal) hok
  rw [hsame] at hscreen
  exact ⟨hscreen.1, hscreen.2.1.trans (typedLines_extends hfirst), hscreen.2.2⟩

/-- From `kernel_main` on, in every run of the processor and the devices: if the keys type lines of
at most 126 printable characters and fewer than 2047 in all, and each is handled in time, then the
lines executed are the first of the lines typed, and the screen shows the messages of the boot and
the session over the lines executed, each with the `ticks` of its time, and behind the prompt what
has been typed since. -/
theorem system_on_screen (m : PowerOn) (acts : List SysAction) (hf : m.framebuffer.Usable)
    (hplain : m.PlainCpu acts)
    (hkeys : ∀ c ∈ typed false (pressesOf acts), Printable c ∨ c = 10)
    (hlines : ∀ l ∈ typedLines (typed false (pressesOf acts)), l.length ≤ 126)
    (htotal : (typed false (pressesOf acts)).length < 2047)
    (hok : Guarded Shell.actIn (fun s a => InTime s a.2) m.system.shell (m.shellRun acts)) :
    ∃ s, m.run acts = some s ∧
      let log := execLog m.system.shell (m.shellRun acts)
      let text := typed false (keysIn (eventsOf m.system acts))
      s.shell.executed = log.map Prod.snd ∧
      s.shell.executed <+: typedLines (typed false (pressesOf acts)) ∧
      Displays m.framebuffer s.shell.kernel.terminal
        (session (inColour defTextCol bootText) log ++
          s.shell.pc.pending (unread s.shell.executed (text.foldl feed ([], [])))) := by
  rcases run_sound m.system_sound acts with ⟨s, hrun, -, hsteps, -⟩
  have hshell : s.shell = (m.shellRun acts).foldl Shell.actIn m.system.shell := hsteps.shell
  refine ⟨s, by rw [m.run_eq]; exact hrun, ?_⟩
  rw [hshell]
  exact shell_on_screen m acts hf hplain hkeys hlines htotal hok

/-- The line `a`. -/
def typeA : List SysAction :=
  [.shell [], .shell [], .press 0x1E, .accept, .acknowledge, .handle inKernel 0, .shell [],
    .press 0x1C, .accept, .acknowledge, .handle inKernel 0, .shell [], .shell [], .shell [],
    .shell []]

theorem typeA_plain : resetPower.PlainCpu typeA := by
  have hplain : resetMachine.Plain := by
    unfold Machine.Plain
    decide +kernel
  refine ⟨hplain, fun stack hmem => ?_⟩
  obtain rfl : stack = [] := by simpa [typeA] using hmem
  exact hplain

theorem system_on_screen_reset :
    ∃ s, resetPower.run typeA = some s ∧
      let log := execLog resetPower.system.shell (resetPower.shellRun typeA)
      let text := typed false (keysIn (eventsOf resetPower.system typeA))
      s.shell.executed = log.map Prod.snd ∧
      s.shell.executed <+: typedLines (typed false (pressesOf typeA)) ∧
      Displays vga640 s.shell.kernel.terminal
        (session (inColour defTextCol bootText) log ++
          s.shell.pc.pending (unread s.shell.executed (text.foldl feed ([], [])))) :=
  system_on_screen resetPower typeA resetPower_usable typeA_plain
    (by unfold Printable; decide) (by decide) (by decide) (by decide +kernel)

/-! ## Every line is executed -/

theorem eventsOf_append {s s₁ : System} {acts : List SysAction}
    (h : acts.foldlM System.act s = some s₁) (more : List SysAction) :
    eventsOf s (acts ++ more) = eventsOf s acts ++ eventsOf s₁ more := by
  induction acts generalizing s with
  | nil =>
      rcases Option.some.inj h with rfl
      rfl
  | cons a acts ih =>
      rw [List.foldlM_cons] at h
      rcases Option.bind_eq_some_iff.1 h with ⟨s', hact, hrest⟩
      rw [List.cons_append, eventsOf_cons hact, eventsOf_cons hact, ih hrest, List.append_assoc]

/-- The shell's actions in a run come before those in what follows it. -/
theorem shellRun_append (m : PowerOn) (acts more : List SysAction) :
    ∃ later, m.shellRun (acts ++ more) = m.shellRun acts ++ later := by
  rcases run_sound m.system_sound acts with ⟨s₁, hrun, -⟩
  rw [PowerOn.shellRun, eventsOf_append hrun, timed_append]
  exact ⟨_, rfl⟩

/-- In every run as in `system_on_screen`: what is executed are the first of the lines whose keys
have been handled, and all that were complete four steps of the shell ago are, or it has halted. -/
theorem lines_executed (m : PowerOn) (acts more : List SysAction)
    (hkeys : ∀ c ∈ typed false (pressesOf (acts ++ more)), Printable c ∨ c = 10)
    (hlines : ∀ l ∈ typedLines (typed false (pressesOf (acts ++ more))), l.length ≤ 126)
    (htotal : (typed false (pressesOf (acts ++ more))).length < 2047)
    (hok : Guarded Shell.actIn (fun s a => InTime s a.2) m.system.shell
      (m.shellRun (acts ++ more)))
    (hsteps : shellSteps (m.shellRun acts) + 4 ≤ shellSteps (m.shellRun (acts ++ more))) :
    ∃ s, m.run (acts ++ more) = some s ∧
      s.shell.executed <+: typedLines (typed false (keysIn (eventsOf m.system (acts ++ more)))) ∧
      (s.shell.pc = .halted ∨
        typedLines (typed false (keysIn (eventsOf m.system acts))) <+: s.shell.executed) := by
  rcases run_sound m.system_sound (acts ++ more) with ⟨s, hrun, -, hsteps', -⟩
  have hfirst := typed_extends (handled_first m (acts ++ more)) false
  have hsame : ∀ acts, keysOf ((m.shellRun acts).map Prod.snd) = keysIn (eventsOf m.system acts) :=
    fun acts => keysOf_timed _ _
  have hshell : s.shell = (m.shellRun (acts ++ more)).foldl Shell.actIn m.system.shell :=
    hsteps'.shell
  rcases shellRun_append m acts more with ⟨later, hlater⟩
  rw [hlater, shellSteps_append] at hsteps
  rw [← hsame (acts ++ more), hlater] at hfirst
  have hhand := lines_in_hand m.past _ m.line (m.shellRun acts) later
    (fun c hc => hkeys c (hfirst.subset hc))
    (fun l hl => hlines l ((typedLines_extends hfirst).subset hl))
    (Nat.lt_of_le_of_lt hfirst.length_le htotal) (hlater ▸ hok) (by omega)
  refine ⟨s, by rw [m.run_eq]; exact hrun, ?_⟩
  rw [hshell, ← hsame (acts ++ more), ← hsame acts, hlater]
  exact hhand

/-- Four steps of the shell behind the newline. -/
theorem lines_executed_reset :
    ∃ s, resetPower.run (typeA.take 11 ++ typeA.drop 11) = some s ∧
      s.shell.executed <+:
        typedLines (typed false (keysIn (eventsOf resetPower.system
          (typeA.take 11 ++ typeA.drop 11)))) ∧
      (s.shell.pc = .halted ∨
        typedLines (typed false (keysIn (eventsOf resetPower.system (typeA.take 11)))) <+:
          s.shell.executed) :=
  lines_executed resetPower (typeA.take 11) (typeA.drop 11) (by unfold Printable; decide)
    (by decide) (by decide) (by decide +kernel) (by decide +kernel)

/-! ## A panic -/

section

variable {s s' : System} {alive : Bool}

/-- Once halted, the system takes no interrupt, and no action reaches the shell or the ticks. -/
theorem act_halted (h : s.Sound alive) (hpc : s.shell.pc = .halted) {a : SysAction}
    (hact : s.act a = some s') :
    s'.shell = s.shell ∧ s'.machine = s.machine ∧ s.handles a = false := by
  have hmode : s.mode = .running := by
    by_contra hother
    exact h.awake hother hpc
  rcases act_sound h a with ⟨s₁, hact₁, -, hsteps, -⟩
  rcases Option.some.inj (hact.symm.trans hact₁) with rfl
  have hquiet : ticksOf (s.event a) = 0 ∧ s.handles a = false := by
    cases a with
    | handle x cr2 =>
        simp [System.event, System.handles, hmode, ticksOf]
    | shell stack =>
        simp [System.event, System.handles, hmode, ticksOf]
    | raise l | lower l | press b | accept | acknowledge =>
        exact ⟨rfl, rfl⟩
  refine ⟨hsteps.shell.trans (run_halted hpc _).1, ?_, hquiet.2⟩
  rw [hsteps.machine, hquiet.1]
  simp

theorem run_halted_system (h : s.Sound alive) (hpc : s.shell.pc = .halted)
    (more : List SysAction) :
    ∃ s', more.foldlM System.act s = some s' ∧ s'.shell = s.shell ∧ s'.machine = s.machine ∧
      handledIn s more = 0 := by
  induction more generalizing s with
  | nil =>
      exact ⟨s, rfl, rfl, rfl, rfl⟩
  | cons a more ih =>
      rcases act_sound h a with ⟨s₁, hact, hsound, -, -⟩
      rcases act_halted h hpc hact with ⟨hshell, hmachine, hnone⟩
      rcases ih hsound (by rw [hshell]; exact hpc) with ⟨s₂, hrun, hshell₂, hmachine₂, hnone₂⟩
      refine ⟨s₂, ?_, hshell₂.trans hshell, hmachine₂.trans hmachine, ?_⟩
      · rw [List.foldlM_cons, hact]
        exact hrun
      · rw [handledIn_cons hact, hnone, hnone₂]
        rfl

end

/-- In every run from `kernel_main` on, whatever is typed, and at whichever step of the shell: the
system has halted exactly if the command of a line that the shell has executed panics; no line is
executed behind that one; and then nothing that the devices do is ever handled again, and the shell,
the screen and `ticks` stay as they are. -/
theorem panic_halts (m : PowerOn) (acts : List SysAction) :
    ∃ s, m.run acts = some s ∧
      let log := execLog m.system.shell (m.shellRun acts)
      (s.shell.pc = .halted ↔ ∃ x ∈ log, panics x = true) ∧
      (∀ x ∈ log.dropLast, panics x = false) ∧
      (s.shell.pc = .halted → ∀ more, ∃ s', m.run (acts ++ more) = some s' ∧
        s'.shell = s.shell ∧ s'.machine = s.machine ∧ handledIn s more = 0) := by
  rcases run_sound m.system_sound acts with ⟨s, hrun, hsound, hsteps, -⟩
  have hshell : s.shell = (m.shellRun acts).foldl Shell.actIn m.system.shell := hsteps.shell
  have hstart : HaltInv [] m.system.shell := start_halt m.past _ m.line
  have hinv := run_halt hstart (m.shellRun acts)
  rw [List.nil_append, ← hshell] at hinv
  refine ⟨s, by rw [m.run_eq]; exact hrun, ⟨fun hpc => ?_, ?_⟩, fun x hx => ?_, fun hpc more => ?_⟩
  · rcases hinv.halted hpc with ⟨before, x, hlog, hpanics, -⟩
    exact ⟨x, by rw [hlog]; exact List.mem_append_right _ (List.mem_singleton_self x), hpanics⟩
  · rintro ⟨x, hx, hpanics⟩
    by_contra hgoes
    exact Bool.false_ne_true ((hinv.going hgoes x hx).symm.trans hpanics)
  · by_cases hpc : s.shell.pc = .halted
    · rcases hinv.halted hpc with ⟨before, y, hlog, -, hbefore⟩
      rw [hlog, List.dropLast_concat] at hx
      exact hbefore x hx
    · exact hinv.going hpc x (List.dropLast_subset _ hx)
  · rcases run_halted_system hsound hpc more with ⟨s', hmore, hsame⟩
    refine ⟨s', ?_, hsame⟩
    rw [m.run_eq, List.foldlM_append, hrun]
    exact hmore

end Interrupt
end Feudos
