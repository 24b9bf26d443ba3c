import Feudos.Interrupt.Delivery

/-!
# Interrupts from `sti` to `ksh_run`

`PowerOn.run` lets the interrupts come from `ksh_run` on, but the kernel enables them before its
last two messages.

- `untilSti`         : `arch_init` up to `sti`;
- `Starting`         : the system while the messages behind it are printed;
- `boot_interleaved` : interrupts between the messages come to the same as interrupts behind them,
  unless a key types a character there.
-/

namespace Feudos
namespace Interrupt

open Devices Vga GuardedRun WordStack

/-! ## The calls up to `sti` -/

/-- `arch_init` up to `sti`. -/
def untilSti {σ : Type} (bus : PortBus σ) (isr : Nat → Word) (s : Booting σ) :
    Option (Booting σ) := do
  let s := { s with cpu := gdtInit s.cpu }
  let s := s.log "Initialized GDT.\n"
  let s := { s with cpu := loadIdt s.cpu isr }
  let s := s.log "Initialized IDT.\n"
  let ports ← picRemap bus s.ports
  let ports ← pitInit bus ports timerFreq.toUInt32
  let ports ← picSetMask bus ports 0
  let ports ← picClearMask bus ports 0
  let ports ← picClearMask bus ports 1
  let s := { s with ports := ports }
  let s := s.log "PIC initialization done.\n"
  some { s with cpu := { s.cpu with interruptFlag := true } }

/-- The messages behind `sti`. -/
def lateMessages : List String := ["Interrupts enabled.\n", "SSE enabled.\n"]

/-- Behind `sti`, `arch_init` prints the messages and sets the control registers. -/
theorem archInit_late {σ : Type} (bus : PortBus σ) (isr : Nat → Word) (s : Booting σ) :
    archInit bus isr s = (untilSti bus isr s).map (fun s =>
      { (lateMessages.foldl Booting.log s) with cpu := initSse s.cpu }) := by
  simp only [archInit, untilSti, Booting.log, lateMessages, List.foldl_cons, List.foldl_nil,
    Option.bind_eq_bind, Option.map_bind, Function.comp_def, Option.map_some]

/-! ## The system behind `sti` -/

/-- A change of the terminal. -/
def System.render (s : System) (f : Terminal → Terminal) : System :=
  { s with
    shell :=
      { s.shell with kernel := { s.shell.kernel with terminal := f s.shell.kernel.terminal } } }

def printMessage (t : Terminal) (msg : String) : Terminal :=
  klog t .info (cstr msg) []

/-- The system before `ksh_run`, and the messages that are still to come. -/
structure Starting where
  system : System
  todo : List String

def SysAction.isShell : SysAction → Bool
  | .shell _ => true
  | _ => false

/-- A step of the kernel prints the next message; the devices and the interrupts are as later. -/
def Starting.act (s : Starting) (a : SysAction) : Option Starting :=
  if a.isShell then
    match s.todo with
    | [] => some s
    | msg :: todo =>
        some (if s.system.mode = .running then
          { system := s.system.render (printMessage · msg), todo := todo }
        else s)
  else
    (s.system.act a).map (fun system => { s with system := system })

/-- The system behind `sti`. -/
def PowerOn.starting (m : PowerOn) : Option Starting := do
  let terminal := started m.framebuffer m.pixels defTextCol
  let terminal := klog terminal .none (cstr "Booting up %s %s for %s ...\n")
    [.str kernelName, .str kernelVer, .str kernelArch]
  let s ← untilSti Platform.bus m.isr { terminal := terminal, cpu := m.cpu, ports := m.platform }
  some
    { system :=
        { shell := Shell.start m.past s.terminal m.line
          machine := { m.machine with ticks := 0 }
          platform := s.ports
          mode := .running }
      todo := lateMessages }

/-- The system when the messages are out. -/
def Starting.flush (s : Starting) : System :=
  s.system.render (fun t => s.todo.foldl printMessage t)

theorem logs_printed (s : Booting Platform) (msgs : List String) :
    (msgs.foldl Booting.log s).terminal = msgs.foldl printMessage s.terminal := by
  induction msgs generalizing s with
  | nil =>
      rfl
  | cons msg msgs ih =>
      rw [List.foldl_cons, ih]
      rfl

theorem logs_ports (s : Booting Platform) (msgs : List String) :
    (msgs.foldl Booting.log s).ports = s.ports := by
  induction msgs generalizing s with
  | nil =>
      rfl
  | cons msg msgs ih =>
      rw [List.foldl_cons, ih]
      rfl

/-- Printing all the messages gives the system with which `ksh_run` begins. -/
theorem starting_flush (m : PowerOn) :
    ∃ s, m.starting = some s ∧ s.flush = m.system := by
  have hboot := m.boot_eq
  simp only [PowerOn.boot, PowerOn.booting, kernelMain, archInit_late, Option.bind_eq_bind] at hboot
  rcases Option.bind_eq_some_iff.1 hboot with ⟨s, hbooting, hsystem⟩
  rcases Option.map_eq_some_iff.1 hbooting with ⟨s₀, hsti, rfl⟩
  refine ⟨{
    system :=
      { shell := Shell.start m.past s₀.terminal m.line
        machine := { m.machine with ticks := 0 }
        platform := s₀.ports
        mode := .running }
    todo := lateMessages }, ?_, ?_⟩
  · simp only [PowerOn.starting, hsti, Option.bind_eq_bind, Option.bind_some]
  · rw [← Option.some.inj hsystem]
    simp only [Starting.flush, System.render, logs_printed, logs_ports, Shell.start, Kernel.boot]

/-! ## The terminal does not matter to the interrupts -/

/-- What an action types is echoed on the terminal. -/
def System.echo (s : System) (a : SysAction) (t : Terminal) : Terminal :=
  (typed s.shell.kernel.shiftHeld (keysIn (s.event a))).foldl
    (fun t c => vgaPutc t c t.textColor) t

section

variable {s : System} {alive : Bool}

theorem Sound.render (h : s.Sound alive) (f : Terminal → Terminal) :
    (s.render f).Sound alive :=
  ⟨h.wired, h.serving, h.keyWaits, h.awake⟩

/-- A key does the same to the rest of the kernel on every terminal. -/
theorem scancode_echo (k : Kernel) (sc : UInt8) (t : Terminal) :
    kbdHandleScancode { k with terminal := t } sc =
      { kbdHandleScancode k sc with
        terminal := (typed k.shiftHeld [sc]).foldl (fun t c => vgaPutc t c t.textColor) t } := by
  rw [kbdHandleScancode_eq, kbdHandleScancode_eq]
  cases hdecode : decode k.shiftHeld sc with
  | none =>
      simp [hdecode, typed]
  | some c =>
      simp [hdecode, typed]

theorem handle_echo (h : s.Sound alive) {v : UInt8} (hmode : s.mode = .handling v)
    (x : Interrupted) (cr2 : UInt64) (t : Terminal) :
    (s.render (fun _ => t)).act (.handle x cr2) =
      (s.act (.handle x cr2)).map (·.render (fun _ => s.echo (.handle x cr2) t)) := by
  rcases handle_sound h hmode x cr2 with ⟨l, rfl, hact, -, -⟩
  rcases handle_sound (Sound.render h (fun _ => t)) hmode x cr2 with ⟨l', hvector, hact', -, -⟩
  obtain rfl : l = l' := (vector_eq_iff h.wired l l' (vector_toNat h.wired l')).1 hvector
  have htimer := vector_eq_iff h.wired l (.master 0) (v := 0x20) rfl
  have hkeyboard := vector_eq_iff h.wired l (.master 1) (v := 0x21) rfl
  rw [hact, hact', Option.map_some, Option.some.injEq]
  by_cases hl : l = .master 1
  · subst hl
    have hkey : s.event (.handle x cr2) = [.key s.platform.readKeyboard.1] := by
      have hnot : ¬ (0x21 : UInt8) = 0x20 := by decide
      simp only [System.event, hmode, CpuMode.handling.injEq, hkeyboard.2 rfl, if_neg hnot, if_true]
    have hscancode := scancode_echo s.shell.kernel s.platform.readKeyboard.1 t
    simp only [System.leave, Core.eoi, lineHandler, System.core, System.render, System.echo, hkey,
      keysIn, hscancode]
  · -- Another line: nothing is typed.
    have hnothing : keysIn (s.event (.handle x cr2)) = [] := by
      simp only [System.event, hmode, CpuMode.handling.injEq, htimer, hkeyboard, if_neg hl]
      split <;> rfl
    rcases lineHandler_other hl s.core with ⟨hports, hkernel⟩
    rcases lineHandler_other hl (s.render (fun _ => t)).core with ⟨hports', hkernel'⟩
    have hticks := lineHandler_ticks l s.core
    have hticks' := lineHandler_ticks l (s.render (fun _ => t)).core
    simp only [System.leave, Core.eoi, hports, hkernel, hports', hkernel', hticks, hticks',
      System.echo, hnothing]
    rfl

/-- What happens besides the steps of the kernel is the same on every terminal, and changes the
terminal only by its echo. -/
theorem act_echo (h : s.Sound alive) {a : SysAction} (ha : a.isShell = false) (t : Terminal) :
    (s.render (fun _ => t)).act a = (s.act a).map (·.render (fun _ => s.echo a t)) := by
  cases a with
  | raise l | lower l =>
      simp only [System.act, System.device, Option.map_some]
      split <;> rfl
  | press b =>
      rfl
  | accept =>
      have haccepts : (s.render (fun _ => t)).accepts = s.accepts := rfl
      simp only [System.act, haccepts, Option.map_some]
      split <;> rfl
  | acknowledge =>
      have hmode : (s.render (fun _ => t)).mode = s.mode := rfl
      have hpics : (s.render (fun _ => t)).platform.pics = s.platform.pics := rfl
      simp only [System.act, hmode, hpics]
      split
      · cases s.platform.pics.inta <;> rfl
      · cases s.platform.pics.intaSlave <;> rfl
      · rfl
  | handle x cr2 =>
      cases hmode : s.mode with
      | handling v =>
          exact handle_echo h hmode x cr2 t
      | running | acknowledging | askingSlave =>
          have hmode' : (s.render (fun _ => t)).mode = s.mode := rfl
          have hnothing : s.event (.handle x cr2) = [] := by
            simp [System.event, hmode]
          simp only [System.act, hmode', hmode, Option.map_some, System.echo, hnothing]
          rfl
  | shell stack =>
      cases ha

/-- The terminal behind an action that is not a step of the kernel. -/
theorem act_terminal {s' : System} (h : s.Sound alive) {a : SysAction} (ha : a.isShell = false)
    (hact : s.act a = some s') :
    s'.shell.kernel.terminal = s.echo a s.shell.kernel.terminal := by
  have hecho := act_echo h ha s.shell.kernel.terminal
  have hsame : s.render (fun _ => s.shell.kernel.terminal) = s := rfl
  rw [hsame, hact, Option.map_some, Option.some.injEq] at hecho
  exact congrArg (fun s : System => s.shell.kernel.terminal) hecho

theorem echo_nothing {a : SysAction}
    (hquiet : typed s.shell.kernel.shiftHeld (keysIn (s.event a)) = []) (t : Terminal) :
    s.echo a t = t := by
  rw [System.echo, hquiet]
  rfl

/-- An action that types nothing neither depends on the terminal nor changes it. -/
theorem act_render (h : s.Sound alive) {a : SysAction} (ha : a.isShell = false)
    (hquiet : typed s.shell.kernel.shiftHeld (keysIn (s.event a)) = []) (f : Terminal → Terminal) :
    (s.render f).act a = (s.act a).map (·.render f) := by
  rcases act_sound h a with ⟨s', hact, -, -, -⟩
  have hterminal := act_terminal h ha hact
  rw [echo_nothing hquiet] at hterminal
  have hrender : s.render f = s.render (fun _ => f s.shell.kernel.terminal) := rfl
  rw [hrender, act_echo h ha, hact, Option.map_some, Option.map_some, echo_nothing hquiet,
    System.render, System.render, hterminal]

/-- An action that is not a step of the kernel changes nothing of the shell but the keyboard's part
of the kernel. -/
theorem act_kernel {s' : System} (h : s.Sound alive) {a : SysAction} (ha : a.isShell = false)
    (hact : s.act a = some s') :
    s'.shell = { s.shell with kernel := s'.shell.kernel } ∧
      s'.shell.kernel.shiftHeld =
        (keysIn (s.event a)).foldl shiftAfter s.shell.kernel.shiftHeld := by
  rcases act_sound h a with ⟨s₁, hact₁, -, hsteps, -⟩
  rcases Option.some.inj (hact.symm.trans hact₁) with rfl
  rw [hsteps.shell]
  cases a with
  | handle x cr2 =>
      rw [System.event]
      split
      · exact ⟨rfl, rfl⟩
      · split
        · next hmode =>
            have hawake := h.awake (by rw [hmode]; exact fun hEq => by cases hEq)
            refine ⟨?_, act_key_shiftHeld s.machine _ hawake⟩
            simp only [timed, List.foldl_cons, List.foldl_nil, Shell.actIn, Shell.act,
              if_neg hawake]
        · exact ⟨rfl, rfl⟩
  | raise l | lower l | press b | accept | acknowledge =>
      exact ⟨rfl, rfl⟩
  | shell stack =>
      cases ha

/-! ## Runs -/

/-- The actions of the devices and of the interrupts. -/
def deviceActs (early : List SysAction) : List SysAction :=
  early.filter (fun a => !a.isShell)

variable {start : Starting}

/-- A step of the kernel prints what was to be printed. -/
theorem flush_message {a : SysAction} (ha : a.isShell = true) :
    ∃ next, start.act a = some next ∧ next.flush = start.flush := by
  rw [Starting.act, if_pos ha]
  split
  · exact ⟨start, rfl, rfl⟩
  · next msg todo htodo =>
      refine ⟨_, rfl, ?_⟩
      split
      · simp only [Starting.flush, htodo]
        rfl
      · rfl

/-- Another action comes to the same when the messages are out. -/
theorem flush_act (h : start.flush.Sound alive) {a : SysAction} (ha : a.isShell = false)
    (hquiet : typed start.flush.shell.kernel.shiftHeld (keysIn (start.flush.event a)) = []) :
    ∃ next, start.act a = some next ∧ start.flush.act a = some next.flush := by
  have hsound : start.system.Sound alive := ⟨h.wired, h.serving, h.keyWaits, h.awake⟩
  rcases act_sound hsound a with ⟨s', hact, -, -, -⟩
  refine ⟨{ start with system := s' }, ?_, ?_⟩
  · rw [Starting.act, ha, if_neg Bool.false_ne_true, hact]
    rfl
  · rw [Starting.flush, act_render hsound ha hquiet, hact]
    rfl

theorem flush_run (h : start.flush.Sound alive) (early : List SysAction)
    (hquiet : typed start.flush.shell.kernel.shiftHeld
      (keysIn (eventsOf start.flush (deviceActs early))) = []) :
    ∃ next, early.foldlM Starting.act start = some next ∧
      (deviceActs early).foldlM System.act start.flush = some next.flush := by
  induction early generalizing start with
  | nil =>
      exact ⟨start, rfl, rfl⟩
  | cons a early ih =>
      cases ha : a.isShell with
      | true =>
          have hdrop : deviceActs (a :: early) = deviceActs early := by simp [deviceActs, ha]
          rcases @flush_message start a ha with ⟨next, hact, hflush⟩
          rw [hdrop, ← hflush] at hquiet ⊢
          rcases ih (hflush ▸ h) hquiet with ⟨last, hrun, hsame⟩
          refine ⟨last, ?_, hsame⟩
          rw [List.foldlM_cons, hact]
          exact hrun
      | false =>
          have hkeep : deviceActs (a :: early) = a :: deviceActs early := by simp [deviceActs, ha]
          rcases act_sound h a with ⟨s', hact', hsound, -, -⟩
          rw [hkeep, eventsOf_cons hact', keysIn_append, typed_append, ← (act_kernel h ha hact').2,
            List.append_eq_nil_iff] at hquiet
          rcases flush_act h ha hquiet.1 with ⟨next, hact, hflush⟩
          rcases Option.some.inj (hact'.symm.trans hflush) with rfl
          rcases ih hsound hquiet.2 with ⟨last, hrun, hsame⟩
          refine ⟨last, ?_, ?_⟩
          · rw [List.foldlM_cons, hact]
            exact hrun
          · rw [hkeep, List.foldlM_cons, hflush]
            exact hsame

end

/-- The interrupts that come from `sti` to `ksh_run`, between the messages, come to the same as if
they came behind them, if the keys handled there type no character: every run from there on is a run
from `ksh_run` on. -/
theorem boot_interleaved (m : PowerOn) (early : List SysAction)
    (hquiet : typed false (keysIn (eventsOf m.system (deviceActs early))) = []) :
    ∃ s, m.starting.bind (fun s => early.foldlM Starting.act s) = some s ∧
      (s.todo = [] → ∀ acts,
        acts.foldlM System.act s.system = m.run (deviceActs early ++ acts)) := by
  rcases starting_flush m with ⟨start, hstart, hflush⟩
  have hsound := m.system_sound
  rw [← hflush] at hsound hquiet
  have hheld : start.flush.shell.kernel.shiftHeld = false := by
    rw [hflush]
    rfl
  rcases flush_run hsound early (by rw [hheld]; exact hquiet) with ⟨next, hrun, hsame⟩
  refine ⟨next, ?_, fun htodo acts => ?_⟩
  · rw [hstart]
    exact hrun
  · have hout : next.flush = next.system := by
      rw [Starting.flush, htodo]
      rfl
    rw [m.run_eq, List.foldlM_append, ← hflush, hsame, hout]
    rfl

/-- A tick before the first message, and a key that is released before the second. -/
def earlyTick : List SysAction :=
  [.raise (.master 0), .accept, .acknowledge, .handle inKernel 0, .shell [], .press 0x9C, .accept,
    .acknowledge, .handle inKernel 0, .shell []]

theorem boot_interleaved_reset :
    ∃ s, resetPower.starting.bind (fun s => earlyTick.foldlM Starting.act s) = some s ∧
      (s.todo = [] → ∀ acts,
        acts.foldlM System.act s.system = resetPower.run (deviceActs earlyTick ++ acts)) :=
  boot_interleaved resetPower earlyTick (by decide +kernel)

end Interrupt
end Feudos
