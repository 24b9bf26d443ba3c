import Feudos.Interrupt.Dispatch
import Feudos.Shell.Session

/-!
# The shell, the processor and the devices

The whole system after `arch_init`: the shell, the processor's way from a request to the handler,
the interrupt controllers, the keyboard controller and any other devices.  Devices may raise and
lower their lines at any time, also between the processor's acknowledge cycles and while a handler
has not run yet.

- `System.act`    : one action of the processor or of a device;
- `System.Sound`  : what every action keeps (`act_sound`);
- `eventsOf`      : the timer ticks, keys and shell steps of a run, in their order;
- `run_sound`     : every run goes on, and the shell in it runs as the machine of `Shell.actIn`.
-/

namespace Feudos
namespace Interrupt

open Devices Vga GuardedRun WordStack

/-! ## The system -/

/-- Where the processor is: in the kernel with interrupts enabled, between the acknowledge cycles,
or at the first instruction of a handler.  Gates of the type that `idt_init` sets disable interrupts
until the handler returns. -/
inductive CpuMode
  | running
  | acknowledging
  | askingSlave
  | handling (vector : UInt8)
  deriving DecidableEq

structure System where
  shell : Shell
  machine : Machine
  platform : Platform
  mode : CpuMode

/-- An action of a device, of the processor, or of the shell.  `x` is what the processor saves of
the kernel, and `stack` what lies behind the arrays of the shell. -/
inductive SysAction
  | raise (l : Line)
  | lower (l : Line)
  | press (b : UInt8)
  | accept
  | acknowledge
  | handle (x : Interrupted) (cr2 : UInt64)
  | shell (stack : List UInt8)

def System.core (s : System) : Core Platform :=
  { kernel := s.shell.kernel, ticks := s.machine.ticks, ports := s.platform }

/-- The state after a handler; a handler that does not return has halted. -/
def System.leave (s : System) (core : Core Platform) (returns : Bool) : System :=
  { shell :=
      { s.shell with
        kernel := core.kernel
        pc := if returns then s.shell.pc else .halted }
    machine := { s.machine with ticks := core.ticks }
    platform := core.ports
    mode := .running }

/-- The processor takes an interrupt when interrupts are enabled; `kernel_panic` disables them. -/
def System.accepts (s : System) : Bool :=
  s.mode = .running ∧ s.shell.pc ≠ .halted ∧ s.platform.pics.int

/-- The keyboard controller drives its line itself. -/
def System.device (s : System) (l : Line) (f : Pics → Line → Pics) : System :=
  if l = Platform.keyboardLine then s
  else { s with platform := { s.platform with pics := f s.platform.pics l } }

def System.act (s : System) : SysAction → Option System
  | .raise l => some (s.device l Pics.raise)
  | .lower l => some (s.device l Pics.lower)
  | .press b => some { s with platform := s.platform.press b }
  | .accept => some (if s.accepts then { s with mode := .acknowledging } else s)
  | .acknowledge =>
      match s.mode with
      | .acknowledging => do
          let (pics, answer) ← s.platform.pics.inta
          some { s with
            platform := { s.platform with pics := pics }
            mode :=
              match answer with
              | none => .askingSlave
              | some l => .handling (pics.vector l) }
      | .askingSlave => do
          let (pics, l) ← s.platform.pics.intaSlave
          some { s with
            platform := { s.platform with pics := pics }
            mode := .handling (pics.vector l) }
      | _ => some s
  | .handle x cr2 =>
      match s.mode with
      | .handling v => do
          let (core, returns) ← interruptDispatch Platform.bus cr2 (x.ctx v.toNat 0) s.core
          some (s.leave core returns)
      | _ => some s
  | .shell stack =>
      some (if s.mode = .running then
        { s with shell := s.shell.step { s.machine with stack := stack } }
      else s)

/-! ## What the shell sees -/

/-- A timer interrupt, a keyboard interrupt, or a step of the shell. -/
inductive Event
  | tick
  | key (sc : UInt8)
  | shell (stack : List UInt8)

/-- What an action is for the shell. -/
def System.event (s : System) : SysAction → List Event
  | .handle _ _ =>
      if s.mode = .handling 0x20 then [.tick]
      else if s.mode = .handling 0x21 then [.key s.platform.readKeyboard.1]
      else []
  | .shell stack => if s.mode = .running then [.shell stack] else []
  | _ => []

def eventsOf : System → List SysAction → List Event
  | _, [] => []
  | s, a :: acts => s.event a ++ (s.act a).elim [] (fun s' => eventsOf s' acts)

/-- The actions of the shell's machine, each on the machine as it is after the ticks so far. -/
def timed (m : Machine) : List Event → List (Machine × Action)
  | [] => []
  | .tick :: es => timed { m with ticks := m.ticks + 1 } es
  | .key sc :: es => (m, .key sc) :: timed m es
  | .shell stack :: es => ({ m with stack := stack }, .shell) :: timed m es

/-- The ticks of some events. -/
def ticksOf : List Event → Nat
  | [] => 0
  | .tick :: es => ticksOf es + 1
  | _ :: es => ticksOf es

/-- The scancodes handled. -/
def keysIn : List Event → List UInt8
  | [] => []
  | .key sc :: es => sc :: keysIn es
  | _ :: es => keysIn es

/-- The scancodes that come from the keyboard. -/
def pressesOf : List SysAction → List UInt8
  | [] => []
  | .press b :: acts => b :: pressesOf acts
  | _ :: acts => pressesOf acts

/-! ## The invariant -/

/-- What is in service, by what the processor does. -/
def Serving (p : Pics) : CpuMode → Prop
  | .running | .acknowledging => p.Idle
  | .askingSlave => p.Asked
  | .handling v => ∃ l, v = p.vector l ∧ p.InService l

/-- The keyboard's line is requested while a byte waits, except for the byte whose handler runs.  If
a byte was waiting before the controllers forgot all requests (`alive` is `false`), it waits for
ever, and the line is never requested again. -/
def KeyWaits (alive : Bool) (p : Platform) (mode : CpuMode) : Prop :=
  (alive = false → p.keyboard.queue ≠ []) ∧
    if mode = .handling 0x21 then
      alive = true ∧ p.keyboard.queue ≠ [] ∧ (1 : Fin 8) ∉ p.pics.master.irr
    else ((1 : Fin 8) ∈ p.pics.master.irr ↔ alive = true ∧ p.keyboard.queue ≠ [])

/-- The controllers are set up as `arch_init` leaves them, nothing is left in service, and the shell
has not halted when an interrupt is under way. -/
structure System.Sound (alive : Bool) (s : System) : Prop where
  wired : s.platform.pics.Wired 0x20 0x28
  serving : Serving s.platform.pics s.mode
  keyWaits : KeyWaits alive s.platform s.mode
  awake : s.mode ≠ .running → s.shell.pc ≠ .halted

/-! ## Vectors -/

section

variable {p p' : Pics} {l : Line}

theorem vector_toNat (h : p.Wired 0x20 0x28) (l : Line) :
    (p.vector l).toNat = 0x20 + (irqOf l).toNat := by
  cases l with
  | master i =>
      have hall : ∀ i : Fin 8, (0x20 + UInt8.ofNat i).toNat = 0x20 + (irqOf (.master i)).toNat := by
        decide
      rw [Pics.vector, h.master_base]
      exact hall i
  | slave i =>
      have hall : ∀ i : Fin 8, (0x28 + UInt8.ofNat i).toNat = 0x20 + (irqOf (.slave i)).toNat := by
        decide
      rw [Pics.vector, h.slave_base]
      exact hall i

theorem irqOf_inj : ∀ l l' : Line, irqOf l = irqOf l' → l = l' := by
  have hall : ∀ i j : Fin 8, (irqOf (.master i) = irqOf (.master j) → i = j) ∧
      (irqOf (.slave i) = irqOf (.slave j) → i = j) ∧ irqOf (.master i) ≠ irqOf (.slave j) ∧
      irqOf (.slave i) ≠ irqOf (.master j) := by
    decide
  intro l l' h
  cases l with
  | master i =>
      cases l' with
      | master j =>
          rw [(hall i j).1 h]
      | slave j =>
          exact absurd h (hall i j).2.2.1
  | slave i =>
      cases l' with
      | master j =>
          exact absurd h (hall i j).2.2.2
      | slave j =>
          rw [(hall i j).2.1 h]

/-- A vector tells its line. -/
theorem vector_eq_iff (h : p.Wired 0x20 0x28) (l l' : Line) {v : UInt8}
    (hv : v.toNat = 0x20 + (irqOf l').toNat) : p.vector l = v ↔ l = l' := by
  rw [← UInt8.toNat_inj, vector_toNat h, hv, Nat.add_left_cancel_iff, UInt8.toNat_inj]
  exact ⟨irqOf_inj l l', fun hEq => hEq ▸ rfl⟩

theorem Serving.congr {mode : CpuMode} (h : Serving p mode)
    (hmaster : p'.master.isr = p.master.isr) (hslave : p'.slave.isr = p.slave.isr)
    (hconfig : p'.config = p.config) : Serving p' mode := by
  cases mode with
  | running | acknowledging =>
      exact Pics.Idle.of_isr h hmaster hslave
  | askingSlave =>
      exact Pics.Asked.of_isr h hmaster hslave
  | handling v =>
      rcases h with ⟨l, rfl, hservice⟩
      simp only [Pics.config, Chip.config, Prod.mk.injEq] at hconfig
      refine ⟨l, ?_, hservice.of_isr hmaster hslave⟩
      cases l with
      | master i =>
          rw [Pics.vector, Pics.vector, hconfig.1.2.1]
      | slave i =>
          rw [Pics.vector, Pics.vector, hconfig.2.2.1]

end

/-! ## Devices -/

section

variable {s s' : System} {alive : Bool}

theorem raise_sound (h : s.Sound alive) (l : Line) : (s.device l Pics.raise).Sound alive := by
  unfold System.device
  split
  · exact h
  · next hl =>
      have hisr := Pics.raise_isr s.platform.pics l
      have hkey := h.keyWaits
      -- Another line: the keyboard's request stays.
      have hirr : (1 : Fin 8) ∈ (s.platform.pics.raise l).master.irr ↔
          (1 : Fin 8) ∈ s.platform.pics.master.irr := by
        rw [Pics.mem_raise_irr]
        exact ⟨fun hmem => hmem.elim id (fun hnew => absurd hnew.1 hl), Or.inl⟩
      refine ⟨Pics.raise_wired h.wired l,
        h.serving.congr hisr.1 hisr.2 (Pics.raise_config _ l), ?_, h.awake⟩
      unfold KeyWaits at hkey ⊢
      simp only [hirr]
      exact hkey

theorem lower_sound (h : s.Sound alive) (l : Line) : (s.device l Pics.lower).Sound alive := by
  unfold System.device
  split
  · exact h
  · next hl =>
      have hisr := Pics.lower_isr s.platform.pics l
      have hkey := h.keyWaits
      have hirr : (1 : Fin 8) ∈ (s.platform.pics.lower l).master.irr ↔
          (1 : Fin 8) ∈ s.platform.pics.master.irr := by
        rw [Pics.mem_lower_irr]
        exact ⟨fun hmem => hmem.1, fun hmem => ⟨hmem, hl⟩⟩
      refine ⟨Pics.lower_wired h.wired l,
        h.serving.congr hisr.1 hisr.2 (Pics.lower_config _ l), ?_, h.awake⟩
      unfold KeyWaits at hkey ⊢
      simp only [hirr]
      exact hkey

/-- A byte requests an interrupt when it is the first to wait. -/
theorem press_sound (h : s.Sound alive) (b : UInt8) :
    ({ s with platform := s.platform.press b } : System).Sound alive := by
  have hkey := h.keyWaits
  have hmore : s.platform.keyboard.queue ++ [b] ≠ [] := by simp
  by_cases hempty : s.platform.keyboard.queue = []
  · have hisr := Pics.raise_isr s.platform.pics Platform.keyboardLine
    have hpics : (s.platform.press b).pics = s.platform.pics.raise Platform.keyboardLine :=
      if_pos hempty
    have hirr : (1 : Fin 8) ∈ (s.platform.pics.raise Platform.keyboardLine).master.irr :=
      Pics.mem_raise_irr.2 (Or.inr ⟨rfl, by decide⟩)
    refine ⟨?_, ?_, ?_, h.awake⟩
    · rw [hpics]
      exact Pics.raise_wired h.wired _
    · rw [hpics]
      exact h.serving.congr hisr.1 hisr.2 (Pics.raise_config _ _)
    · -- The keyboard is alive, since nothing was waiting.
      have halive : alive = true := by
        by_contra hdead
        exact hkey.1 (by simpa using hdead) hempty
      refine ⟨fun _ => hmore, ?_⟩
      rw [hpics]
      split
      · next hmode =>
          have hwaiting := hkey.2
          rw [if_pos hmode] at hwaiting
          exact absurd hempty hwaiting.2.1
      · exact ⟨fun _ => ⟨halive, hmore⟩, fun _ => hirr⟩
  · have hpics : (s.platform.press b).pics = s.platform.pics := if_neg hempty
    refine ⟨hpics ▸ h.wired, hpics ▸ h.serving, ⟨fun _ => hmore, ?_⟩, h.awake⟩
    have hwaiting := hkey.2
    rw [hpics]
    split
    · next hmode =>
        rw [if_pos hmode] at hwaiting
        exact ⟨hwaiting.1, hmore, hwaiting.2.2⟩
    · next hmode =>
        rw [if_neg hmode] at hwaiting
        exact ⟨fun hmem => ⟨(hwaiting.1 hmem).1, hmore⟩,
          fun hboth => hwaiting.2 ⟨hboth.1, hempty⟩⟩

/-! ## The processor -/

theorem accept_sound (h : s.Sound alive) (haccepts : s.accepts = true) :
    ({ s with mode := .acknowledging } : System).Sound alive := by
  simp only [System.accepts, decide_eq_true_eq] at haccepts
  have hserving := h.serving
  have hkey := h.keyWaits
  rw [haccepts.1] at hserving hkey
  exact ⟨h.wired, hserving, hkey, fun _ => haccepts.2.1⟩

/-- The first acknowledge cycle. -/
theorem acknowledge_sound (h : s.Sound alive) (hmode : s.mode = .acknowledging) :
    ∃ s', s.act .acknowledge = some s' ∧ s'.Sound alive ∧ s'.shell = s.shell ∧
      s'.machine = s.machine ∧
      s'.platform.keyboard = s.platform.keyboard ∧
      s'.platform.pics.config = s.platform.pics.config := by
  have hserving := h.serving
  have hkey := h.keyWaits
  rw [hmode] at hserving hkey
  rcases Pics.inta_idle h.wired hserving with ⟨pics, answer, hinta, hcycle⟩
  have hwired := hcycle.wired h.wired
  have hconfig : pics.config = s.platform.pics.config := by
    rw [Pics.config, Pics.config, hcycle.config, hcycle.slave]
  have hawake := h.awake (by rw [hmode]; decide)
  have hwaits : (1 : Fin 8) ∈ s.platform.pics.master.irr ↔
      alive = true ∧ s.platform.keyboard.queue ≠ [] := hkey.2
  rw [System.act, hmode]
  simp only [hinta]
  refine ⟨_, rfl, ⟨hwired, ?_, ?_, fun _ => hawake⟩, rfl, rfl, rfl, hconfig⟩
  · cases answer with
    | none =>
        exact hcycle.asked rfl
    | some l =>
        exact ⟨l, rfl, (hcycle.given l rfl).2⟩
  · have hirr := hcycle.requests 1 (by decide)
    refine ⟨hkey.1, ?_⟩
    cases answer with
    | none =>
        have hnot : ¬ CpuMode.askingSlave = .handling 0x21 := fun hEq => by cases hEq
        simp only [if_neg hnot, hirr, hwaits]
        exact ⟨fun hboth => hboth.1, fun hmem => ⟨hmem, fun hEq => by cases hEq⟩⟩
    | some l =>
        -- The vector is the keyboard's exactly when its line was given.
        have hvector := vector_eq_iff hwired l (.master 1) (v := 0x21) rfl
        by_cases hl : l = .master 1
        · subst hl
          have hrequested := hcycle.requested 1 (by decide) rfl
          simp only [hvector.2 rfl, if_true, hirr]
          exact ⟨(hwaits.1 hrequested).1, (hwaits.1 hrequested).2, fun hboth => hboth.2 rfl⟩
        · have hnot : ¬ CpuMode.handling (pics.vector l) = .handling 0x21 := by
            rw [CpuMode.handling.injEq, hvector]
            exact hl
          simp only [if_neg hnot, hirr, hwaits]
          refine ⟨fun hboth => hboth.1, fun hmem => ⟨hmem, ?_⟩⟩
          rw [ne_eq, Option.some.injEq]
          exact hl

/-- The second acknowledge cycle. -/
theorem askSlave_sound (h : s.Sound alive) (hmode : s.mode = .askingSlave) :
    ∃ s', s.act .acknowledge = some s' ∧ s'.Sound alive ∧ s'.shell = s.shell ∧
      s'.machine = s.machine ∧
      s'.platform.keyboard = s.platform.keyboard ∧
      s'.platform.pics.config = s.platform.pics.config := by
  have hserving := h.serving
  have hkey := h.keyWaits
  rw [hmode] at hserving hkey
  rcases Pics.intaSlave_asked h.wired hserving with ⟨pics, i, hinta, hmaster, hslave, hservice⟩
  have hwired : pics.Wired 0x20 0x28 :=
    h.wired.of_config (by rw [hmaster]) hslave (by rw [hmaster]; exact h.wired.no_device)
  have hconfig : pics.config = s.platform.pics.config := by
    rw [Pics.config, Pics.config, hmaster, hslave]
  have hawake := h.awake (by rw [hmode]; decide)
  have hnot : ¬ CpuMode.handling (pics.vector (.slave i)) = .handling 0x21 := by
    rw [CpuMode.handling.injEq, vector_eq_iff hwired (.slave i) (.master 1) (v := 0x21) rfl]
    exact fun hEq => by cases hEq
  rw [System.act, hmode]
  simp only [hinta]
  refine ⟨_, rfl, ⟨hwired, ⟨_, rfl, hservice⟩, ?_, fun _ => hawake⟩, rfl, rfl, rfl, hconfig⟩
  simp only [KeyWaits, if_neg hnot, hmaster]
  exact hkey

/-! ## The handlers -/

theorem lineHandler_other {l : Line} (hl : l ≠ .master 1) (c : Core Platform) :
    (lineHandler l c).ports = c.ports ∧ (lineHandler l c).kernel = c.kernel := by
  unfold lineHandler
  split
  · exact ⟨rfl, rfl⟩
  · exact absurd rfl hl
  · exact ⟨rfl, rfl⟩

theorem lineHandler_ticks (l : Line) (c : Core Platform) :
    (lineHandler l c).ticks = if l = .master 0 then c.ticks + 1 else c.ticks := by
  unfold lineHandler
  split
  · rfl
  · rfl
  · next h0 _ =>
      rw [if_neg h0]

/-- A handler leaves its line in service; the end of interrupt comes behind it. -/
theorem lineHandler_pics (l : Line) (c : Core Platform) (h : c.ports.pics.Wired 0x20 0x28) :
    (lineHandler l c).ports.pics.Wired 0x20 0x28 ∧
      (lineHandler l c).ports.pics.config = c.ports.pics.config ∧
      (c.ports.pics.InService l → (lineHandler l c).ports.pics.InService l) := by
  by_cases hl : l = .master 1
  · subst hl
    have hisr := c.ports.readKeyboard_isr
    exact ⟨Platform.readKeyboard_wired h, c.ports.readKeyboard_config,
      fun hservice => hservice.of_isr hisr.1 hisr.2⟩
  · rw [(lineHandler_other hl c).1]
    exact ⟨h, rfl, id⟩

/-- A handler runs: it is the one of the line in service, and leaves nothing in service. -/
theorem handle_sound (h : s.Sound alive) {v : UInt8} (hmode : s.mode = .handling v)
    (x : Interrupted) (cr2 : UInt64) :
    ∃ l, v = s.platform.pics.vector l ∧
      s.act (.handle x cr2) = some (s.leave ((lineHandler l s.core).eoi l) true) ∧
      (s.leave ((lineHandler l s.core).eoi l) true).Sound alive ∧
      ((lineHandler l s.core).eoi l).ports.pics.config = s.platform.pics.config := by
  have hserving := h.serving
  have hkey := h.keyWaits
  rw [hmode] at hserving hkey
  rcases hserving with ⟨l, rfl, hservice⟩
  rcases lineHandler_pics l s.core h.wired with ⟨hwired, hconfig, hstays⟩
  have hvector : (x.ctx (s.platform.pics.vector l).toNat 0).vector.toNat =
      0x20 + (irqOf l).toNat := by
    rw [← vector_toNat h.wired l]
    have hlt := (s.platform.pics.vector l).toNat_lt
    simp only [Interrupted.ctx, BitVec.toNat_ofNat]
    omega
  have hdispatch := interruptDispatch_line cr2 hvector s.core
  have hkeyboard := vector_eq_iff h.wired l (.master 1) (v := 0x21) rfl
  refine ⟨l, rfl, ?_, ⟨Pics.eoi_wired hwired l, Pics.eoi_idle (hstays hservice), ?_,
    fun hne => absurd rfl hne⟩, (Pics.eoi_config _ l).trans hconfig⟩
  · rw [System.act, hmode]
    simp only [hdispatch]
    rfl
  · have hnot : ¬ CpuMode.running = .handling 0x21 := fun hEq => by cases hEq
    simp only [KeyWaits, System.leave, Core.eoi, if_neg hnot, Pics.eoi_irr]
    by_cases hl : l = .master 1
    · -- A byte was waiting, and it has been read.
      subst hl
      simp only [KeyWaits, hkeyboard.2 rfl, if_true] at hkey
      rcases hkey with ⟨-, halive, hwaiting, -⟩
      rcases List.exists_cons_of_ne_nil hwaiting with ⟨b, rest, hqueue⟩
      rcases Platform.readKeyboard_cons hqueue with ⟨-, hrest, hirr⟩
      have hports : (lineHandler (.master 1) s.core).ports = s.platform.readKeyboard.2 := rfl
      rw [hports, hrest, hirr, halive]
      exact ⟨(fun hdead => by cases hdead), fun hmore => ⟨rfl, hmore⟩, fun hboth => hboth.2⟩
    · have hother : ¬ CpuMode.handling (s.platform.pics.vector l) = .handling 0x21 := by
        rw [CpuMode.handling.injEq, hkeyboard]
        exact hl
      simp only [KeyWaits, if_neg hother] at hkey
      rw [(lineHandler_other hl s.core).1]
      exact hkey

/-! ## Every action -/

/-- What some events do to the shell and the ticks. -/
structure Steps (s s' : System) (es : List Event) : Prop where
  shell : s'.shell = (timed s.machine es).foldl Shell.actIn s.shell
  machine : s'.machine = { s.machine with ticks := s.machine.ticks + UInt64.ofNat (ticksOf es) }
  config : s'.platform.pics.config = s.platform.pics.config

theorem Steps.silent (hshell : s'.shell = s.shell) (hmachine : s'.machine = s.machine)
    (hconfig : s'.platform.pics.config = s.platform.pics.config) : Steps s s' [] where
  shell := hshell
  machine := by
    rw [hmachine]
    simp [ticksOf]
  config := hconfig

theorem device_keeps (s : System) (l : Line) (f : Pics → Line → Pics)
    (hconfig : ∀ p l, (f p l).config = p.config) :
    Steps s (s.device l f) [] ∧ (s.device l f).platform.keyboard = s.platform.keyboard := by
  unfold System.device
  split
  · exact ⟨Steps.silent rfl rfl rfl, rfl⟩
  · exact ⟨Steps.silent rfl rfl (hconfig _ l), rfl⟩

theorem press_config (p : Platform) (b : UInt8) : (p.press b).pics.config = p.pics.config := by
  unfold Platform.press
  dsimp only
  split
  · exact Pics.raise_config _ _
  · rfl

/-- A handler as an event of the shell. -/
theorem handle_steps (h : s.Sound alive) {v : UInt8} (hmode : s.mode = .handling v)
    (x : Interrupted) (cr2 : UInt64) :
    ∃ s', s.act (.handle x cr2) = some s' ∧ s'.Sound alive ∧ Steps s s' (s.event (.handle x cr2)) ∧
      keysIn (s.event (.handle x cr2)) ++ s'.platform.keyboard.queue =
        s.platform.keyboard.queue := by
  rcases handle_sound h hmode x cr2 with ⟨l, rfl, hact, hsound, hconfig⟩
  have htimer := vector_eq_iff h.wired l (.master 0) (v := 0x20) rfl
  have hkeyboard := vector_eq_iff h.wired l (.master 1) (v := 0x21) rfl
  have hticks := lineHandler_ticks l s.core
  have hawake := h.awake (by rw [hmode]; exact fun hEq => by cases hEq)
  refine ⟨_, hact, hsound, ?_⟩
  by_cases h1 : l = .master 1
  · subst h1
    have hkey := h.keyWaits
    rw [hmode, hkeyboard.2 rfl, KeyWaits, if_pos rfl] at hkey
    rcases List.exists_cons_of_ne_nil hkey.2.2.1 with ⟨b, rest, hqueue⟩
    rcases Platform.readKeyboard_cons hqueue with ⟨hb, hrest, -⟩
    have hevent : s.event (.handle x cr2) = [.key s.platform.readKeyboard.1] := by
      have hnot : ¬ (0x21 : UInt8) = 0x20 := by decide
      simp only [System.event, hmode, CpuMode.handling.injEq, hkeyboard.2 rfl, if_neg hnot, if_true]
    rw [hevent]
    refine ⟨⟨?_, ?_, hconfig⟩, ?_⟩
    · -- The shell has not halted, so it takes the key.
      simp only [timed, List.foldl_cons, List.foldl_nil, Shell.actIn, Shell.act, if_neg hawake]
      rfl
    · have hzero : ticksOf [.key s.platform.readKeyboard.1] = 0 := rfl
      simp [hzero]
      rfl
    · have hleft : keysIn [.key s.platform.readKeyboard.1] ++
          (s.leave ((lineHandler (.master 1) s.core).eoi (.master 1)) true).platform.keyboard.queue
            = s.platform.readKeyboard.1 :: s.platform.readKeyboard.2.keyboard.queue := rfl
      rw [hleft, hb, hrest, hqueue]
  · -- Another line: neither the shell nor the keyboard controller is touched.
    rcases lineHandler_other h1 s.core with ⟨hports, hkernel⟩
    have hshell : (s.leave ((lineHandler l s.core).eoi l) true).shell = s.shell := by
      simp only [System.leave, Core.eoi, hkernel]
      rfl
    have hqueue : (s.leave ((lineHandler l s.core).eoi l) true).platform.keyboard =
        s.platform.keyboard := by
      simp only [System.leave, Core.eoi, hports]
      rfl
    by_cases h0 : l = .master 0
    · subst h0
      have hevent : s.event (.handle x cr2) = [.tick] := by
        simp only [System.event, hmode, htimer.2 rfl, if_true]
      rw [hevent]
      exact ⟨⟨hshell, rfl, hconfig⟩, congrArg KeyboardController.queue hqueue⟩
    · have hevent : s.event (.handle x cr2) = [] := by
        simp only [System.event, hmode, CpuMode.handling.injEq, htimer, hkeyboard, if_neg h0,
          if_neg h1]
      rw [if_neg h0] at hticks
      have hmachine : (s.leave ((lineHandler l s.core).eoi l) true).machine = s.machine := by
        simp only [System.leave, Core.eoi, hticks]
        rfl
      rw [hevent]
      exact ⟨Steps.silent hshell hmachine hconfig, congrArg KeyboardController.queue hqueue⟩

/-- Every action goes on from a sound state to a sound state, and is its events for the shell. -/
theorem act_sound (h : s.Sound alive) (a : SysAction) :
    ∃ s', s.act a = some s' ∧ s'.Sound alive ∧ Steps s s' (s.event a) ∧
      keysIn (s.event a) ++ s'.platform.keyboard.queue =
        s.platform.keyboard.queue ++ pressesOf [a] := by
  cases a with
  | raise l =>
      rcases device_keeps s l Pics.raise Pics.raise_config with ⟨hsteps, hkeyboard⟩
      refine ⟨_, rfl, raise_sound h l, hsteps, ?_⟩
      simp [System.event, keysIn, pressesOf, hkeyboard]
  | lower l =>
      rcases device_keeps s l Pics.lower Pics.lower_config with ⟨hsteps, hkeyboard⟩
      refine ⟨_, rfl, lower_sound h l, hsteps, ?_⟩
      simp [System.event, keysIn, pressesOf, hkeyboard]
  | press b =>
      exact ⟨_, rfl, press_sound h b, Steps.silent rfl rfl (press_config _ b), rfl⟩
  | accept =>
      rw [System.act]
      by_cases haccepts : s.accepts = true
      · rw [if_pos haccepts]
        exact ⟨_, rfl, accept_sound h haccepts, Steps.silent rfl rfl rfl, (List.append_nil _).symm⟩
      · rw [if_neg haccepts]
        exact ⟨_, rfl, h, Steps.silent rfl rfl rfl, (List.append_nil _).symm⟩
  | acknowledge =>
      have hcycle : s.mode = .acknowledging ∨ s.mode = .askingSlave →
          ∃ s', s.act .acknowledge = some s' ∧ s'.Sound alive ∧ s'.shell = s.shell ∧
            s'.machine = s.machine ∧ s'.platform.keyboard = s.platform.keyboard ∧
            s'.platform.pics.config = s.platform.pics.config := by
        rintro (hmode | hmode)
        · exact acknowledge_sound h hmode
        · exact askSlave_sound h hmode
      cases hmode : s.mode with
      | running | handling v =>
          have hact : s.act .acknowledge = some s := by
            rw [System.act, hmode]
          exact ⟨s, hact, h, Steps.silent rfl rfl rfl, (List.append_nil _).symm⟩
      | acknowledging | askingSlave =>
          obtain ⟨s', hact, hsound, hshell, hmachine, hkeyboard, hconfig⟩ :=
            hcycle (by simp [hmode])
          refine ⟨s', hact, hsound, Steps.silent hshell hmachine hconfig, ?_⟩
          rw [hkeyboard]
          exact (List.append_nil _).symm
  | handle x cr2 =>
      have hdone : pressesOf [.handle x cr2] = [] := rfl
      rw [hdone, List.append_nil]
      cases hmode : s.mode with
      | handling v =>
          exact handle_steps h hmode x cr2
      | running | acknowledging | askingSlave =>
          have hact : s.act (.handle x cr2) = some s := by
            rw [System.act, hmode]
          have hevent : s.event (.handle x cr2) = [] := by
            simp [System.event, hmode]
          rw [hevent]
          exact ⟨s, hact, h, Steps.silent rfl rfl rfl, rfl⟩
  | shell stack =>
      rw [System.act]
      by_cases hmode : s.mode = .running
      · have hevent : s.event (.shell stack) = [.shell stack] := by
          simp [System.event, hmode]
        rw [if_pos hmode, hevent]
        refine ⟨_, rfl, ⟨h.wired, h.serving, h.keyWaits, fun hne => absurd hmode hne⟩,
          ⟨rfl, ?_, rfl⟩, (List.append_nil _).symm⟩
        simp [ticksOf]
      · have hevent : s.event (.shell stack) = [] := by
          simp [System.event, hmode]
        rw [if_neg hmode, hevent]
        exact ⟨s, rfl, h, Steps.silent rfl rfl rfl, (List.append_nil _).symm⟩

/-! ## Runs -/

theorem add_ofNat_succ (t : UInt64) (n : Nat) :
    t + 1 + UInt64.ofNat n = t + UInt64.ofNat (n + 1) := by
  have hsucc : UInt64.ofNat (n + 1) = 1 + UInt64.ofNat n := by
    rw [UInt64.ofNat_add, UInt64.add_comm]
    rfl
  rw [hsucc, UInt64.add_assoc]

theorem timed_append (m : Machine) (es es' : List Event) :
    timed m (es ++ es') =
      timed m es ++ timed { m with ticks := m.ticks + UInt64.ofNat (ticksOf es) } es' := by
  induction es generalizing m with
  | nil =>
      simp [timed, ticksOf]
  | cons e es ih =>
      cases e with
      | tick =>
          simp only [List.cons_append, timed, ih, ticksOf, add_ofNat_succ]
      | key sc | shell stack =>
          simp only [List.cons_append, timed, ih, ticksOf]

theorem ticksOf_append (es es' : List Event) :
    ticksOf (es ++ es') = ticksOf es + ticksOf es' := by
  induction es with
  | nil =>
      simp [ticksOf]
  | cons e es ih =>
      cases e <;> simp [ticksOf, ih, Nat.add_right_comm]

theorem keysIn_append (es es' : List Event) : keysIn (es ++ es') = keysIn es ++ keysIn es' := by
  induction es with
  | nil =>
      rfl
  | cons e es ih =>
      cases e <;> simp [keysIn, ih]

/-- The keys of the shell's run are those handled. -/
theorem keysOf_timed (m : Machine) (es : List Event) :
    keysOf ((timed m es).map Prod.snd) = keysIn es := by
  induction es generalizing m with
  | nil =>
      rfl
  | cons e es ih =>
      cases e <;> simp [timed, keysOf, keysIn, ih]

theorem pressesOf_cons (a : SysAction) (acts : List SysAction) :
    pressesOf (a :: acts) = pressesOf [a] ++ pressesOf acts := by
  cases a <;> rfl

theorem Steps.trans {s₁ s₂ s₃ : System} {es es' : List Event} (h : Steps s₁ s₂ es)
    (h' : Steps s₂ s₃ es') : Steps s₁ s₃ (es ++ es') where
  shell := by
    rw [timed_append, List.foldl_append, ← h.shell, h'.shell, h.machine]
  machine := by
    rw [h'.machine, h.machine, ticksOf_append, UInt64.ofNat_add, UInt64.add_assoc]
  config := h'.config.trans h.config

/-- Every run goes on, and is its events for the shell; the bytes handled and those still waiting
are the bytes that came. -/
theorem run_sound (h : s.Sound alive) (acts : List SysAction) :
    ∃ s', acts.foldlM System.act s = some s' ∧ s'.Sound alive ∧ Steps s s' (eventsOf s acts) ∧
      keysIn (eventsOf s acts) ++ s'.platform.keyboard.queue =
        s.platform.keyboard.queue ++ pressesOf acts := by
  induction acts generalizing s with
  | nil =>
      exact ⟨s, rfl, h, Steps.silent rfl rfl rfl, (List.append_nil _).symm⟩
  | cons a acts ih =>
      rcases act_sound h a with ⟨s₁, hact, hsound, hsteps, hkeys⟩
      rcases ih hsound with ⟨s₂, hrun, hsound', hsteps', hkeys'⟩
      have hevents : eventsOf s (a :: acts) = s.event a ++ eventsOf s₁ acts := by
        rw [eventsOf, hact]
        rfl
      rw [hevents, List.foldlM_cons, hact, pressesOf_cons]
      refine ⟨s₂, hrun, hsound', hsteps.trans hsteps', ?_⟩
      calc
        keysIn (s.event a ++ eventsOf s₁ acts) ++ s₂.platform.keyboard.queue
            = keysIn (s.event a) ++
                (keysIn (eventsOf s₁ acts) ++ s₂.platform.keyboard.queue) := by
              rw [keysIn_append, List.append_assoc]
        _ = keysIn (s.event a) ++ (s₁.platform.keyboard.queue ++ pressesOf acts) := by rw [hkeys']
        _ = s.platform.keyboard.queue ++ (pressesOf [a] ++ pressesOf acts) := by
              rw [← List.append_assoc, hkeys, List.append_assoc]

end

end Interrupt
end Feudos
