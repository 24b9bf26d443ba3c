import Feudos.Interrupt.Console
import Feudos.Interrupt.Starting
import Feudos.Shell.Calls

/-!
# Interrupts in the shell's output

In `System.act` a step of the shell prints all it has to print at once.  The kernel prints it by one
call after another, and an interrupt may come between any two of them.

- `Printing`           : the system, and the calls that are still to come;
- `Follows`            : a system of whole steps that comes to the same;
- `output_interleaved` : every run of the calls is a run of whole steps, but for the screen, and
  also for the screen if no key types a character in the midst of the calls;
- `printed_on_screen`  : so what the screen shows does not depend on the whole steps.
-/

namespace Feudos
namespace Interrupt

open Devices Vga GuardedRun WordStack

/-! ## The system call by call -/

/-- The system, the calls that are still to come of a step's output, and whether the kernel halts
behind them. -/
structure Printing where
  system : System
  todo : List (Terminal → Terminal)
  halts : Bool

def PowerOn.printing (m : PowerOn) : Printing :=
  { system := m.system, todo := [], halts := false }

/-- A step of the shell without its output. -/
def System.unprinted (s : System) (m : Machine) : System :=
  { s with shell := (s.shell.step m).paint s.shell.kernel.terminal }

/-- The next call, or what the shell does behind the calls. -/
def Printing.shell (p : Printing) (m : Machine) : Printing :=
  let effect := p.system.shell.effect m
  match p.todo with
  | call :: todo => { p with system := p.system.render call, todo := todo }
  | [] =>
      if p.halts then { p with system := p.system.unprinted m, halts := false }
      else if effect.returns then
        { p with system := p.system.unprinted m, todo := effect.calls }
      else
        -- `kernel_panic` disables the interrupts when all is printed.
        { p with todo := effect.calls, halts := true }

def Printing.act (p : Printing) : SysAction → Option Printing
  | .shell stack =>
      some (if p.system.mode = .running then p.shell { p.system.machine with stack := stack }
      else p)
  | a => (p.system.act a).map (fun system => { p with system := system })

/-- Calls are still to come. -/
def Printing.busy (p : Printing) : Bool :=
  !p.todo.isEmpty || p.halts

/-- No character is typed in the midst of the calls. -/
def Printing.Quiet (p : Printing) (a : SysAction) : Prop :=
  p.busy = true → typed p.system.shell.kernel.shiftHeld (keysIn (p.system.event a)) = []

instance decidableQuiet (p : Printing) (a : SysAction) : Decidable (p.Quiet a) :=
  inferInstanceAs (Decidable (_ → _))

/-- The keys come in time. -/
def Printing.InTime (p : Printing) (a : SysAction) : Prop :=
  ∀ sc ∈ keysIn (p.system.event a), Feudos.InTime p.system.shell (.key sc)

instance decidableInTime (p : Printing) (a : SysAction) : Decidable (p.InTime a) :=
  inferInstanceAs (Decidable (∀ _ ∈ _, _))

def Printing.next (p : Printing) (a : SysAction) : Printing :=
  (p.act a).getD p

/-! ## Whole steps -/

/-- `s` has taken the steps of which all is printed or to come in `p`, except for a panic, which it
takes when `p` halts: it is the same but for the terminal, and if the calls have been quiet so far,
it shows what `p` will show. -/
structure Follows (alive : Bool) (quiet : Prop) (p : Printing) (s : System) : Prop where
  sound : s.Sound alive
  halt : ∃ log, HaltInv log s.shell
  system : p.system = s.render (fun _ => p.system.shell.kernel.terminal)
  level : p.halts = false → quiet →
    flush p.todo p.system.shell.kernel.terminal = s.shell.kernel.terminal
  panics : p.halts = true → ∃ text, (∀ m, s.shell.effect m = .panics text) ∧
    (quiet → flush p.todo p.system.shell.kernel.terminal =
      (Effect.panics text).apply s.shell.kernel.terminal)
  waits : p.busy = true → s.shell.pc.waits = false

section

variable {alive : Bool} {quiet : Prop} {p : Printing} {s : System}

theorem Follows.mono {quiet' : Prop} (h : Follows alive quiet p s) (himp : quiet' → quiet) :
    Follows alive quiet' p s where
  sound := h.sound
  halt := h.halt
  system := h.system
  level := fun hhalts hquiet => h.level hhalts (himp hquiet)
  panics := fun hhalts => by
    rcases h.panics hhalts with ⟨text, heffect, hflush⟩
    exact ⟨text, heffect, fun hquiet => hflush (himp hquiet)⟩
  waits := h.waits

/-- The system as it is when the calls are out. -/
theorem Follows.done (h : Follows alive quiet p s) (hhalts : p.halts = false) (hquiet : quiet) :
    p.system.render (flush p.todo) = s := by
  have hflush := h.level hhalts hquiet
  have hrender := congrArg (System.render · (flush p.todo)) h.system
  refine hrender.trans ?_
  simp only [System.render, hflush]

/-! ## Interrupts -/

theorem act_device {a : SysAction} (ha : a.isShell = false) :
    p.act a = (p.system.act a).map (fun system => { p with system := system }) := by
  cases a with
  | shell stack =>
      cases ha
  | raise l | lower l | press b | accept | acknowledge | handle x cr2 =>
      rfl

theorem Follows.event (h : Follows alive quiet p s) (a : SysAction) :
    p.system.event a = s.event a := by
  rw [h.system]
  rfl

theorem Follows.shiftHeld (h : Follows alive quiet p s) :
    p.system.shell.kernel.shiftHeld = s.shell.kernel.shiftHeld := by
  rw [h.system]
  rfl

theorem follows_device (h : Follows alive quiet p s) {a : SysAction} (ha : a.isShell = false) :
    ∃ p' s', p.act a = some p' ∧ s.act a = some s' ∧ Follows alive (quiet ∧ p.Quiet a) p' s' := by
  rcases act_sound h.sound a with ⟨s', hact, hsound, hsteps, -⟩
  rcases act_kernel h.sound ha hact with ⟨hshell, -⟩
  have hterminal := act_terminal h.sound ha hact
  have hechoes : p.Quiet a → p.busy = true → ∀ t, s.echo a t = t := by
    intro hquiet hbusy
    have hnothing := hquiet hbusy
    rw [h.event, h.shiftHeld] at hnothing
    exact echo_nothing hnothing
  refine ⟨{ p with
    system := s'.render (fun _ => s.echo a p.system.shell.kernel.terminal) }, s', ?_, hact, ?_⟩
  · rw [act_device ha, h.system, act_echo h.sound ha, hact]
    rfl
  · refine ⟨hsound, ?_, rfl, fun hhalts hquiet => ?_, fun hhalts => ?_, fun hbusy => ?_⟩
    · rcases h.halt with ⟨log, hlog⟩
      rw [hsteps.shell]
      exact ⟨_, run_halt hlog _⟩
    · have hflush := h.level hhalts hquiet.1
      rw [hterminal, ← hflush]
      by_cases hbusy : p.busy = true
      · simp only [hechoes hquiet.2 hbusy]
        rfl
      · -- Nothing is to come: the key is echoed on the same terminal.
        have htodo : p.todo = [] := by
          simp only [Printing.busy, Bool.or_eq_true, not_or] at hbusy
          simpa using hbusy.1
        simp only [htodo]
        rfl
    · rcases h.panics hhalts with ⟨text, heffect, hflush⟩
      have hbusy : p.busy = true := by
        have hends : p.halts = true := hhalts
        rw [Printing.busy, hends, Bool.or_true]
      refine ⟨text, fun m => ?_, fun hquiet => ?_⟩
      · rw [hshell]
        exact heffect m
      · rw [hterminal]
        simp only [hechoes hquiet.2 hbusy]
        exact hflush hquiet.1
    · rw [hshell]
      exact h.waits hbusy

/-! ## Steps of the shell -/

/-- The calls of a step that has begun. -/
theorem follows_call (h : Follows alive quiet p s) {call : Terminal → Terminal}
    {todo : List (Terminal → Terminal)} (htodo : p.todo = call :: todo) :
    Follows alive quiet { p with system := p.system.render call, todo := todo } s := by
  have hflush : ∀ t, flush p.todo t = flush todo (call t) := by
    rw [htodo]
    exact fun t => rfl
  refine ⟨h.sound, h.halt, ?_, fun hhalts hquiet => ?_, fun hhalts => ?_, fun _ => ?_⟩
  · exact congrArg (System.render · call) h.system
  · rw [← h.level hhalts hquiet, hflush]
    rfl
  · rcases h.panics hhalts with ⟨text, heffect, hpanics⟩
    refine ⟨text, heffect, fun hquiet => ?_⟩
    rw [← hpanics hquiet, hflush]
    rfl
  · exact h.waits (by simp [Printing.busy, htodo])

/-- What a step of the shell leaves in the system. -/
def System.steps (s : System) (m : Machine) : System :=
  { s with shell := s.shell.step m }

theorem steps_sound (h : s.Sound alive) (hmode : s.mode = .running) (m : Machine) :
    (s.steps m).Sound alive :=
  ⟨h.wired, h.serving, h.keyWaits, fun hne => absurd hmode hne⟩

theorem steps_halt (h : ∃ log, HaltInv log s.shell) (m : Machine) :
    ∃ log, HaltInv log (s.steps m).shell := by
  rcases h with ⟨log, hlog⟩
  exact ⟨_, step_halt m hlog⟩

theorem Follows.effect (h : Follows alive quiet p s) (m : Machine) :
    p.system.shell.effect m = s.shell.effect m := by
  rw [h.system]
  rfl

theorem Follows.unprinted (h : Follows alive quiet p s) (m : Machine) :
    p.system.unprinted m = (s.steps m).render (fun _ => p.system.shell.kernel.terminal) := by
  rcases h.halt with ⟨log, hlog⟩
  have hsystem := h.system
  generalize p.system.shell.kernel.terminal = t at hsystem ⊢
  have hpaint := step_paint m hlog.terminated t
  have hshell : p.system.shell = s.shell.paint t := congrArg System.shell hsystem
  calc
    p.system.unprinted m
        = { s with shell := ((s.shell.paint t).step m).paint t } := by rw [hsystem]; rfl
    _ = { s with shell := (s.shell.step m).paint t } := by rw [hpaint]; rfl
    _ = (s.steps m).render (fun _ => t) := rfl

/-- A step without a panic is taken when its output begins. -/
theorem follows_begin (h : Follows alive quiet p s) (hmode : s.mode = .running) (m : Machine)
    (htodo : p.todo = []) (hhalts : p.halts = false)
    (hreturns : (s.shell.effect m).returns = true) :
    Follows alive quiet
      { p with system := p.system.unprinted m, todo := (s.shell.effect m).calls } (s.steps m) := by
  rcases h.halt with ⟨log, hlog⟩
  have hunprinted := h.unprinted m
  refine ⟨steps_sound h.sound hmode m, steps_halt h.halt m, ?_, fun _ hquiet => ?_,
    fun hends => ?_, fun hbusy => ?_⟩
  · simp only [hunprinted]
    rfl
  · -- The whole step has printed what the calls will print, from the same terminal.
    have hsame := h.level hhalts hquiet
    rw [htodo] at hsame
    have hterminal := step_terminal m hlog.terminated
    simp only [hunprinted]
    calc
      flush (s.shell.effect m).calls p.system.shell.kernel.terminal
          = (s.shell.effect m).apply p.system.shell.kernel.terminal := flush_calls _ _
      _ = (s.shell.effect m).apply s.shell.kernel.terminal := by rw [← hsame]; rfl
      _ = (s.shell.step m).kernel.terminal := hterminal.symm
  · rw [hhalts] at hends
    cases hends
  · refine step_busy m hlog.terminated hreturns (fun hnone => ?_)
    simp [Printing.busy, hnone, hhalts] at hbusy

/-- A panic begins. -/
theorem follows_panic (h : Follows alive quiet p s) (m : Machine) (htodo : p.todo = [])
    (hhalts : p.halts = false) (hreturns : (s.shell.effect m).returns = false) :
    Follows alive quiet { p with todo := (s.shell.effect m).calls, halts := true } s := by
  rcases effect_panics m hreturns with ⟨hpc, text, heffect⟩
  refine ⟨h.sound, h.halt, h.system, fun hends => ?_, fun _ => ⟨text, heffect, fun hquiet => ?_⟩,
    fun _ => ?_⟩
  · cases hends
  · have hsame := h.level hhalts hquiet
    rw [htodo] at hsame
    rw [heffect, flush_calls, ← hsame]
    rfl
  · rw [hpc]
    rfl

/-- A panic halts when all is printed, and its step is taken there. -/
theorem follows_halt (h : Follows alive quiet p s) (hmode : s.mode = .running) (m : Machine)
    (htodo : p.todo = []) (hhalts : p.halts = true) :
    Follows alive quiet { p with system := p.system.unprinted m, halts := false } (s.steps m) := by
  rcases h.halt with ⟨log, hlog⟩
  rcases h.panics hhalts with ⟨text, heffect, hflush⟩
  have hunprinted := h.unprinted m
  refine ⟨steps_sound h.sound hmode m, steps_halt h.halt m, ?_, fun _ hquiet => ?_,
    fun hends => ?_, fun hbusy => ?_⟩
  · simp only [hunprinted]
    rfl
  · -- The text of a panic is the same on the machine on which it began.
    have hsame := hflush hquiet
    have hterminal := step_terminal m hlog.terminated
    rw [heffect, ← hsame] at hterminal
    simp only [hunprinted]
    exact hterminal.symm
  · cases hends
  · simp [Printing.busy, htodo] at hbusy

theorem follows_shell (h : Follows alive quiet p s) (stack : List UInt8) :
    ∃ p' taken s', p.act (.shell stack) = some p' ∧
      (taken = [] ∨ taken = [SysAction.shell stack]) ∧
      taken.foldlM System.act s = some s' ∧ Follows alive quiet p' s' := by
  have hrunning : p.system.mode = s.mode := by
    rw [h.system]
    rfl
  have hmachine : p.system.machine = s.machine := by
    rw [h.system]
    rfl
  by_cases hmode : s.mode = .running
  · have hact : p.act (.shell stack) = some (p.shell { s.machine with stack := stack }) := by
      rw [Printing.act, hrunning, if_pos hmode, hmachine]
    have hstep : [SysAction.shell stack].foldlM System.act s =
        some (s.steps { s.machine with stack := stack }) := by
      rw [List.foldlM_cons, System.act, if_pos hmode]
      rfl
    rw [hact]
    generalize ({ s.machine with stack := stack } : Machine) = m at hstep ⊢
    cases htodo : p.todo with
    | cons call todo =>
        refine ⟨_, [], s, rfl, Or.inl rfl, rfl, ?_⟩
        simp only [Printing.shell, htodo]
        exact follows_call h htodo
    | nil =>
        cases hhalts : p.halts with
        | true =>
            refine ⟨_, _, _, rfl, Or.inr rfl, hstep, ?_⟩
            simpa only [Printing.shell, htodo, hhalts, if_true] using
              follows_halt h hmode m htodo hhalts
        | false =>
            cases hreturns : (s.shell.effect m).returns with
            | true =>
                refine ⟨_, _, _, rfl, Or.inr rfl, hstep, ?_⟩
                simpa only [Printing.shell, htodo, hhalts, h.effect, hreturns, if_true,
                  Bool.false_eq_true, if_false] using
                  follows_begin h hmode m htodo hhalts hreturns
            | false =>
                refine ⟨_, [], s, rfl, Or.inl rfl, rfl, ?_⟩
                simpa only [Printing.shell, htodo, hhalts, h.effect, hreturns, Bool.false_eq_true,
                  if_false] using follows_panic h m htodo hhalts hreturns
  · refine ⟨p, [], s, ?_, Or.inl rfl, rfl, h⟩
    rw [Printing.act, hrunning, if_neg hmode]

/-! ## Runs -/

theorem isShell_eq {a : SysAction} (ha : a.isShell = true) : ∃ stack, a = .shell stack := by
  cases a with
  | shell stack =>
      exact ⟨stack, rfl⟩
  | raise l | lower l | press b | accept | acknowledge | handle x cr2 =>
      cases ha

/-- The keys that come in time in the calls come in time in the whole steps. -/
theorem event_inTime (a : SysAction)
    (hkeys : ∀ sc ∈ keysIn (s.event a), Feudos.InTime s.shell (.key sc)) :
    Guarded Shell.actIn (fun s a => Feudos.InTime s a.2) s.shell
      (timed s.machine (s.event a)) := by
  cases a with
  | handle x cr2 =>
      rw [System.event] at hkeys ⊢
      by_cases htimer : s.mode = .handling 0x20
      · rw [if_pos htimer]
        exact trivial
      · rw [if_neg htimer] at hkeys ⊢
        by_cases hkeyboard : s.mode = .handling 0x21
        · rw [if_pos hkeyboard] at hkeys ⊢
          exact ⟨hkeys _ (List.mem_cons_self ..), trivial⟩
        · rw [if_neg hkeyboard]
          exact trivial
  | shell stack =>
      rw [System.event]
      split
      · exact ⟨trivial, trivial⟩
      · exact trivial
  | raise l | lower l | press b | accept | acknowledge =>
      exact trivial

theorem Follows.inTime (h : Follows alive quiet p s) {a : SysAction} (hok : p.InTime a) :
    ∀ sc ∈ keysIn (s.event a), Feudos.InTime s.shell (.key sc) := by
  rw [Printing.InTime, h.event, h.system] at hok
  exact hok

theorem typed_inTime {s : Shell} (hwaits : s.pc.waits = false) {scs : List UInt8}
    (hok : ∀ sc ∈ scs, Feudos.InTime s (.key sc)) (hone : scs.length ≤ 1) :
    typed s.kernel.shiftHeld scs = [] := by
  cases scs with
  | nil =>
      rfl
  | cons sc scs =>
      obtain rfl : scs = [] := by simpa using hone
      rcases hok sc (List.mem_cons_self ..) with hnone | hlistens
      · simp [typed, hnone]
      · rw [waits_of_listens hlistens] at hwaits
        cases hwaits

theorem keysIn_event (s : System) (a : SysAction) : (keysIn (s.event a)).length ≤ 1 := by
  cases a with
  | handle x cr2 =>
      rw [System.event]
      split
      · exact Nat.zero_le _
      · split
        · exact Nat.le_refl _
        · exact Nat.zero_le _
  | shell stack =>
      rw [System.event]
      split <;> exact Nat.zero_le _
  | raise l | lower l | press b | accept | acknowledge =>
      exact Nat.zero_le _

/-- In the midst of the calls the shell does not listen, so what comes in time types nothing. -/
theorem Follows.quiet_of_inTime (h : Follows alive quiet p s) {a : SysAction} (hok : p.InTime a) :
    p.Quiet a := by
  intro hbusy
  rw [h.event, h.shiftHeld]
  exact typed_inTime (h.waits hbusy) (h.inTime hok) (keysIn_event s a)

/-- Every action is matched: one that is not a step of the kernel by itself, a step of the kernel by
itself or by nothing. -/
theorem follows_act (h : Follows alive quiet p s) (a : SysAction) :
    ∃ p' taken s', p.act a = some p' ∧ (taken = [] ∨ taken = [a]) ∧
      deviceActs taken = deviceActs [a] ∧ taken.foldlM System.act s = some s' ∧
      Follows alive (quiet ∧ p.Quiet a) p' s' := by
  cases ha : a.isShell with
  | true =>
      rcases isShell_eq ha with ⟨stack, rfl⟩
      rcases follows_shell h stack with ⟨p', taken, s', hact, htaken, hrun, hfollows⟩
      refine ⟨p', taken, s', hact, htaken, ?_, hrun, hfollows.mono And.left⟩
      rcases htaken with rfl | rfl <;> rfl
  | false =>
      rcases follows_device h ha with ⟨p', s', hact, hact', hfollows⟩
      refine ⟨p', [a], s', hact, Or.inr rfl, rfl, ?_, hfollows⟩
      rw [List.foldlM_cons, hact']
      rfl

theorem deviceActs_append (acts acts' : List SysAction) :
    deviceActs (acts ++ acts') = deviceActs acts ++ deviceActs acts' :=
  List.filter_append acts acts'

/-- In time, by the calls and by the whole steps. -/
def TakenInTime (s : System) (taken : List SysAction) : Prop :=
  Guarded Shell.actIn (fun s a => Feudos.InTime s a.2) s.shell (timed s.machine (eventsOf s taken))

theorem takenInTime_append (h : s.Sound alive) {s' : System} {taken taken' : List SysAction}
    (hrun : taken.foldlM System.act s = some s') (hok : TakenInTime s taken)
    (hok' : TakenInTime s' taken') : TakenInTime s (taken ++ taken') := by
  rcases run_sound h taken with ⟨s₁, hrun₁, -, hsteps, -⟩
  rcases Option.some.inj (hrun.symm.trans hrun₁) with rfl
  rw [TakenInTime, eventsOf_append hrun, timed_append, guarded_append, ← hsteps.shell,
    ← hsteps.machine]
  exact ⟨hok, hok'⟩

theorem Follows.takenInTime (h : Follows alive quiet p s) {a : SysAction} (hok : p.InTime a)
    {taken : List SysAction} (htaken : taken = [] ∨ taken = [a]) : TakenInTime s taken := by
  rcases htaken with rfl | rfl
  · exact trivial
  · rcases act_sound h.sound a with ⟨s', hact, -⟩
    have hevents : eventsOf s [a] = s.event a := by
      rw [eventsOf_cons hact, eventsOf, List.append_nil]
    rw [TakenInTime, hevents]
    exact event_inTime a (h.inTime hok)

theorem follows_run (h : Follows alive quiet p s) (acts : List SysAction) :
    ∃ p' taken s', acts.foldlM Printing.act p = some p' ∧ taken.Sublist acts ∧
      deviceActs taken = deviceActs acts ∧ taken.foldlM System.act s = some s' ∧
      Follows alive (quiet ∧ Guarded Printing.next Printing.Quiet p acts) p' s' ∧
      (Guarded Printing.next Printing.InTime p acts →
        Guarded Printing.next Printing.Quiet p acts ∧ TakenInTime s taken) := by
  induction acts generalizing quiet p s with
  | nil =>
      exact ⟨p, [], s, rfl, List.Sublist.refl _, rfl, rfl, h.mono And.left,
        fun _ => ⟨trivial, trivial⟩⟩
  | cons a acts ih =>
      rcases follows_act h a with ⟨p₁, taken, s₁, hact, htaken, hdevices, hrun, hfollows⟩
      rcases ih hfollows with
        ⟨p₂, taken', s₂, hact', hsub', hdevices', hrun', hfollows', hinTime'⟩
      have hnext : p.next a = p₁ := by rw [Printing.next, hact, Option.getD_some]
      have hsub : taken.Sublist [a] := by
        rcases htaken with rfl | rfl
        · exact List.nil_sublist _
        · exact List.Sublist.refl _
      refine ⟨p₂, taken ++ taken', s₂, ?_, hsub.append hsub', ?_, ?_, hfollows'.mono ?_, ?_⟩
      · rw [List.foldlM_cons, hact]
        exact hact'
      · have hcons : deviceActs (a :: acts) = deviceActs [a] ++ deviceActs acts :=
          deviceActs_append [a] acts
        rw [deviceActs_append, hdevices, hdevices', hcons]
      · rw [List.foldlM_append, hrun]
        exact hrun'
      · rintro ⟨hquiet, hnow, hlater⟩
        rw [hnext] at hlater
        exact ⟨⟨hquiet, hnow⟩, hlater⟩
      · rintro ⟨hnow, hlater⟩
        rw [hnext] at hlater
        rcases hinTime' hlater with ⟨hquiet, htakenInTime⟩
        rw [guarded_cons, hnext]
        exact ⟨⟨h.quiet_of_inTime hnow, hquiet⟩,
          takenInTime_append h.sound hrun (h.takenInTime hnow htaken) htakenInTime⟩

end

/-! ## From `kernel_main` on -/

theorem follows_start {alive : Bool} {s : System} (hsound : s.Sound alive)
    (hhalt : HaltInv [] s.shell) :
    Follows alive True { system := s, todo := [], halts := false } s where
  sound := hsound
  halt := ⟨[], hhalt⟩
  system := rfl
  level := fun _ _ => rfl
  panics := fun hhalts => by cases hhalts
  waits := fun hbusy => by cases hbusy

/-- The shell's output is printed by one call after another, with interrupts between them.  Every
run of that kind is a run of whole steps, with the same actions of the devices and the processor and
some of the kernel's: the states are the same but for the screen.  They are the same altogether,
once the calls that have begun are out, if no key types a character in the midst of them and no
panic is being printed; and if the keys come in time in the run of the calls, they do in the run of
whole steps. -/
theorem output_interleaved (m : PowerOn) (acts : List SysAction) :
    ∃ p taken s, acts.foldlM Printing.act m.printing = some p ∧ taken.Sublist acts ∧
      deviceActs taken = deviceActs acts ∧ m.run taken = some s ∧
      (∃ t, p.system = s.render (fun _ => t)) ∧
      (Guarded Printing.next Printing.Quiet m.printing acts → p.halts = false →
        p.system.render (flush p.todo) = s) ∧
      (Guarded Printing.next Printing.InTime m.printing acts →
        Guarded Shell.actIn (fun s a => Feudos.InTime s a.2) m.system.shell
          (m.shellRun taken)) := by
  have hstart := follows_start m.system_sound (start_halt m.past _ m.line)
  rcases follows_run hstart acts with
    ⟨p, taken, s, hprinting, hsub, hdevices, hrun, hfollows, hinTime⟩
  refine ⟨p, taken, s, hprinting, hsub, hdevices, ?_, ⟨_, hfollows.system⟩,
    fun hquiet hhalts => hfollows.done hhalts ⟨trivial, hquiet⟩, fun hok => (hinTime hok).2⟩
  rw [m.run_eq]
  exact hrun

/-- A tick between the second and the third character of the prompt, and the line `a` behind it. -/
def tickInPrompt : List SysAction :=
  [.shell [], .shell [], .shell [], .raise (.master 0), .accept, .acknowledge,
    .handle inKernel 0, .shell [], .shell [], .shell [], .shell [], .press 0x1E, .accept,
    .acknowledge, .handle inKernel 0, .shell [], .press 0x1C, .accept, .acknowledge,
    .handle inKernel 0, .shell [], .shell [], .shell [], .shell [], .shell []]

example : Guarded Printing.next Printing.Quiet resetPower.printing tickInPrompt := by
  decide +kernel

/-! ## The screen -/

theorem pressesOf_deviceActs (acts : List SysAction) :
    pressesOf (deviceActs acts) = pressesOf acts := by
  induction acts with
  | nil =>
      rfl
  | cons a acts ih =>
      have hcons : deviceActs (a :: acts) = deviceActs [a] ++ deviceActs acts :=
        deviceActs_append [a] acts
      rw [hcons, pressesOf_append, ih, pressesOf_cons a acts]
      cases a <;> rfl

/-- The session on the screen, with interrupts between any two calls of the shell's output: if the
keys come in time, the lines executed are the first of the lines typed, and unless a panic is being
printed, the screen shows the session as soon as the calls that have begun are out. -/
theorem printed_on_screen (m : PowerOn) (acts : List SysAction) (hf : m.framebuffer.Usable)
    (hplain : m.PlainCpu acts)
    (hkeys : ∀ c ∈ typed false (pressesOf acts), Printable c ∨ c = 10)
    (hlines : ∀ l ∈ typedLines (typed false (pressesOf acts)), l.length ≤ 126)
    (htotal : (typed false (pressesOf acts)).length < 2047)
    (hok : Guarded Printing.next Printing.InTime m.printing acts) :
    ∃ p taken, acts.foldlM Printing.act m.printing = some p ∧ taken.Sublist acts ∧
      deviceActs taken = deviceActs acts ∧
      let log := execLog m.system.shell (m.shellRun taken)
      let text := typed false (keysIn (eventsOf m.system taken))
      p.system.shell.executed = log.map Prod.snd ∧
      p.system.shell.executed <+: typedLines (typed false (pressesOf acts)) ∧
      (p.halts = false →
        Displays m.framebuffer (flush p.todo p.system.shell.kernel.terminal)
          (session (inColour defTextCol bootText) log ++
            p.system.shell.pc.pending
              (unread p.system.shell.executed (text.foldl feed ([], []))))) := by
  have hstart := follows_start m.system_sound (start_halt m.past _ m.line)
  rcases follows_run hstart acts with
    ⟨p, taken, s, hprinting, hsub, hdevices, hrun, hfollows, hinTime⟩
  rcases hinTime hok with ⟨hquiet, htakenInTime⟩
  have hpresses : pressesOf taken = pressesOf acts := by
    rw [← pressesOf_deviceActs taken, hdevices, pressesOf_deviceActs]
  have hplain' : m.PlainCpu taken :=
    ⟨hplain.1, fun stack hmem => hplain.2 stack (hsub.subset hmem)⟩
  rw [← hpresses] at hkeys hlines htotal ⊢
  rcases run_sound m.system_sound taken with ⟨s', hrun', -, hsteps, -⟩
  rcases Option.some.inj (hrun.symm.trans hrun') with rfl
  have hscreen := shell_on_screen m taken hf hplain' hkeys hlines htotal htakenInTime
  have hshell : s.shell = (m.shellRun taken).foldl Shell.actIn m.system.shell := hsteps.shell
  rw [← hshell] at hscreen
  have hexecuted : p.system.shell.executed = s.shell.executed := by
    rw [hfollows.system]
    rfl
  have hpc : p.system.shell.pc = s.shell.pc := by
    rw [hfollows.system]
    rfl
  refine ⟨p, taken, hprinting, hsub, hdevices, ?_⟩
  rw [hexecuted, hpc]
  refine ⟨hscreen.1, hscreen.2.1, fun hhalts => ?_⟩
  rw [hfollows.level hhalts ⟨trivial, hquiet⟩]
  exact hscreen.2.2

theorem tickInPrompt_plain : resetPower.PlainCpu tickInPrompt := by
  refine ⟨typeA_plain.1, fun stack hmem => ?_⟩
  obtain rfl : stack = [] := by simpa [tickInPrompt] using hmem
  exact typeA_plain.1

theorem printed_on_screen_tick :
    ∃ p taken, tickInPrompt.foldlM Printing.act resetPower.printing = some p ∧
      taken.Sublist tickInPrompt ∧ deviceActs taken = deviceActs tickInPrompt ∧
      let log := execLog resetPower.system.shell (resetPower.shellRun taken)
      let text := typed false (keysIn (eventsOf resetPower.system taken))
      p.system.shell.executed = log.map Prod.snd ∧
      p.system.shell.executed <+: typedLines (typed false (pressesOf tickInPrompt)) ∧
      (p.halts = false →
        Displays vga640 (flush p.todo p.system.shell.kernel.terminal)
          (session (inColour defTextCol bootText) log ++
            p.system.shell.pc.pending
              (unread p.system.shell.executed (text.foldl feed ([], []))))) :=
  printed_on_screen resetPower tickInPrompt resetPower_usable tickInPrompt_plain
    (by unfold Printable; decide) (by decide) (by decide) (by decide +kernel)

end Interrupt
end Feudos
