import Feudos.Interrupt.System

/-!
# From `kernel_main` to `ksh_run`

- `klog`, `gdtInit`, `initSse` : the parts that `arch_init` calls besides those modelled elsewhere;
- `archInit`, `kernelMain`     : the calls in the order of the source;
- `kernelMain_ports`           : what they print and how they leave the processor, on any ports;
- `kernelMain_eq`              : how they leave the devices;
- `bootedCpu_stub`             : every gate leads to its stub through the code segment;
- `kernelMain_boots`           : the state of the machine when `ksh_run` begins (`PowerOn.system`).
-/

namespace Feudos
namespace Interrupt

open Devices Vga WordStack

variable {σ : Type}

/-! ## Log messages (`kernel/log.c`) -/

inductive LogLevel
  | none
  | info
  | warn
  | error
  | critical
  deriving DecidableEq

/-- `klogl_str`. -/
def kloglStr : LogLevel → List UInt8
  | .info => bytes "OK"
  | .warn => bytes "WARN"
  | .error => bytes "ERROR"
  | .critical => bytes "CRITICAL"
  | .none => []

/-- `klog`. -/
def klog (t : Terminal) (l : LogLevel) (fmt : List UInt8) (args : List VaArg) : Terminal :=
  let t := if l ≠ .none then kprintf t (cstr "[%s] ") [.str (kloglStr l)] else t
  kprintf t fmt args

/-! ## The processor -/

/-- The descriptor tables with their limits, the segment registers that the kernel loads, the
control registers, and whether interrupts are enabled. -/
structure Processor where
  gdt : List UInt64
  gdtLimit : Nat
  cs : UInt16
  ds : UInt16
  es : UInt16
  fs : UInt16
  gs : UInt16
  ss : UInt16
  idt : Idt
  idtLimit : Nat
  cr0 : UInt64
  cr4 : UInt64
  interruptFlag : Bool

/-- `gdt_flush`: the far return loads the code segment, and then the data segments are loaded. -/
def gdtFlush (c : Processor) (gdt : List UInt64) (limit : Nat) : Processor :=
  { c with
    gdt := gdt, gdtLimit := limit, cs := 0x08
    ds := 0x10, es := 0x10, fs := 0x10, gs := 0x10, ss := 0x10 }

/-- The array `gdt`: nothing, code and data. -/
def gdtTable : List UInt64 :=
  [ 0,
    ((1 : UInt64) <<< 43) ||| ((1 : UInt64) <<< 44) ||| ((1 : UInt64) <<< 47) |||
      ((1 : UInt64) <<< 53),
    ((1 : UInt64) <<< 41) ||| ((1 : UInt64) <<< 44) ||| ((1 : UInt64) <<< 47) ]

/-- `gdt_init`. -/
def gdtInit (c : Processor) : Processor :=
  gdtFlush c gdtTable (3 * 8 - 1)

/-- `idt_init`, with the addresses of the stubs. -/
def loadIdt (c : Processor) (isr : Nat → Word) : Processor :=
  { c with idt := idtInit c.idt isr, idtLimit := 256 * 16 - 1 }

/-- `init_sse`, but for `fninit`. -/
def initSse (c : Processor) : Processor :=
  { c with
    cr0 := (c.cr0 &&& ~~~((1 : UInt64) <<< 2)) ||| ((1 : UInt64) <<< 1)
    cr4 := (c.cr4 ||| ((1 : UInt64) <<< 9)) ||| ((1 : UInt64) <<< 10) }

/-! ## `arch_init` and `kernel_main` -/

/-- The terminal, the processor and the ports while the kernel boots. -/
structure Booting (σ : Type) where
  terminal : Terminal
  cpu : Processor
  ports : σ

def Booting.log (s : Booting σ) (fmt : String) : Booting σ :=
  { s with terminal := klog s.terminal .info (cstr fmt) [] }

/-- `arch_init`. -/
def archInit (bus : PortBus σ) (isr : Nat → Word) (s : Booting σ) : Option (Booting σ) := do
  let s := { s with cpu := gdtInit s.cpu }
  let s := s.log "Initialized GDT.\n"
  let s := { s with cpu := loadIdt s.cpu isr }
  let s := s.log "Initialized IDT.\n"
  let ports ← picRemap bus s.ports
  let ports ← pitInit bus ports timerFreq.toUInt32
  let ports ← picSetMask bus ports 0
  let ports ← picClearMask bus ports 0
  let ports ← picClearMask bus ports 1
  let s := { s with ports := ports }
  let s := s.log "PIC initialization done.\n"
  -- `sti`
  let s := { s with cpu := { s.cpu with interruptFlag := true } }
  let s := s.log "Interrupts enabled.\n"
  let s := { s with cpu := initSse s.cpu }
  some (s.log "SSE enabled.\n")

/-- `kernel_main` up to the call of `ksh_run`. -/
def kernelMain (bus : PortBus σ) (isr : Nat → Word) (gFramebuffer : Framebuffer)
    (fb : Nat → UInt32) (cpu : Processor) (ports : σ) : Option (Booting σ) :=
  let terminal := started gFramebuffer fb defTextCol
  let terminal := klog terminal .none (cstr "Booting up %s %s for %s ...\n")
    [.str kernelName, .str kernelVer, .str kernelArch]
  archInit bus isr { terminal := terminal, cpu := cpu, ports := ports }

/-! ## What they leave -/

def logLine (msg : String) : List UInt8 :=
  bytes "[OK] " ++ bytes msg

def bootLine : List UInt8 :=
  bytes "Booting up " ++ (kernelName ++ (bytes " " ++ (kernelVer ++ (bytes " for " ++
    (kernelArch ++ bytes " ...\n")))))

def archMessages : List String :=
  [ "Initialized GDT.\n", "Initialized IDT.\n", "PIC initialization done.\n",
    "Interrupts enabled.\n", "SSE enabled.\n" ]

/-- The text of a boot. -/
def bootText : List UInt8 :=
  bootLine ++ archMessages.flatMap logLine

theorem kprintf_literal (t : Terminal) {msg : List UInt8}
    (hmsg : (Piece.text msg).proper = true) :
    kprintf t (msg ++ [0]) [] = putText t (inColour t.textColor msg) := by
  have h := kprintf_pieces t [.text msg] (by simpa using hmsg)
  simpa [Piece.format, Piece.args, Piece.shown] using h

/-- A message without arguments, behind its level. -/
theorem klog_info (t : Terminal) {msg : List UInt8} (hmsg : (Piece.text msg).proper = true) :
    klog t .info (msg ++ [0]) [] = putText t (inColour t.textColor (bytes "[OK] " ++ msg)) := by
  have hlevel : LogLevel.info ≠ .none := fun hEq => by cases hEq
  have hhead : kprintf t (cstr "[%s] ") [.str (bytes "OK")] =
      putText t (inColour t.textColor (bytes "[OK] ")) :=
    kprintf_pieces t [.text (bytes "["), .str (bytes "OK"), .text (bytes "] ")] rfl
  simp only [klog, if_pos hlevel, kloglStr]
  rw [hhead, kprintf_literal _ hmsg, putText_textColor, putText_inColour]

theorem logs_terminal (s : Booting σ) {msgs : List String}
    (hmsgs : ∀ msg ∈ msgs, (Piece.text (bytes msg)).proper = true) :
    (msgs.foldl Booting.log s).terminal =
      putText s.terminal (inColour s.terminal.textColor (msgs.flatMap logLine)) := by
  induction msgs generalizing s with
  | nil =>
      rfl
  | cons msg msgs ih =>
      have hfirst : (s.log msg).terminal =
          putText s.terminal (inColour s.terminal.textColor (logLine msg)) :=
        klog_info s.terminal (hmsgs msg (List.mem_cons_self ..))
      rw [List.foldl_cons, ih _ (fun msg hmsg => hmsgs msg (List.mem_cons_of_mem _ hmsg)), hfirst,
        putText_textColor, putText_inColour, List.flatMap_cons]

/-- The devices as `arch_init` leaves them: nothing is requested or in service, and two masks are
clear. -/
def bootedPorts (p : Platform) : Platform :=
  { p with
    pics :=
      { master := remapped (p.pics.master.imr &&& 0xFC) 0x20 0x04
        slave := remapped p.pics.slave.imr 0x28 0x02 }
    timer := { mode := 3, reload := 11931, low := none } }

def bootedCpu (cpu : Processor) (isr : Nat → Word) : Processor :=
  initSse { loadIdt (gdtInit cpu) isr with interruptFlag := true }

/-- Setting the mask of line 0 does not show: it is cleared behind that. -/
theorem clear_masks (v : UInt8) :
    ((v ||| maskBit 0) &&& ~~~maskBit 0) &&& ~~~maskBit 1 = v &&& 0xFC := by
  have hall : ∀ v : BitVec 8, ((v ||| 1) &&& ~~~1) &&& ~~~2 = v &&& 0xFC := by decide +kernel
  exact congrArg UInt8.ofBitVec (hall v.toBitVec)

/-- The accesses of `arch_init` to the ports. -/
def initPorts (bus : PortBus σ) (ports : σ) : Option σ := do
  let ports ← picRemap bus ports
  let ports ← pitInit bus ports timerFreq.toUInt32
  let ports ← picSetMask bus ports 0
  let ports ← picClearMask bus ports 0
  picClearMask bus ports 1

/-- What `arch_init` does besides does not depend on the ports. -/
theorem archInit_ports (bus : PortBus σ) (isr : Nat → Word) (s : Booting σ) :
    archInit bus isr s = (initPorts bus s.ports).map (fun ports =>
      { terminal := (archMessages.foldl Booting.log s).terminal
        cpu := bootedCpu s.cpu isr
        ports := ports }) := by
  simp only [archInit, initPorts, Booting.log, archMessages, List.foldl_cons, List.foldl_nil,
    Option.bind_eq_bind, Option.map_bind, Function.comp_def]
  simp only [Option.map_eq_bind]
  rfl

theorem initPorts_eq (p : Platform) : initPorts Platform.bus p = some (bootedPorts p) := by
  have hfreq : timerFreq.toUInt32 ≠ 0 := by decide
  have hreload : reloadOf (1193180 / timerFreq.toUInt32.toNat) = 11931 := by decide
  simp only [initPorts, picRemap_eq, pitInit_eq _ hfreq, hreload, Option.bind_eq_bind,
    Option.bind_some]
  rw [bootedPorts, ← clear_masks]
  rfl

/-- `kernel_main` up to the shell, from any state of the processor, on any ports. -/
theorem kernelMain_ports (bus : PortBus σ) (isr : Nat → Word) (f : Framebuffer)
    (fb : Nat → UInt32) (cpu : Processor) (ports : σ) :
    kernelMain bus isr f fb cpu ports = (initPorts bus ports).map (fun ports =>
      { terminal := putText (started f fb defTextCol) (inColour defTextCol bootText)
        cpu := bootedCpu cpu isr
        ports := ports }) := by
  have hfirst : klog (started f fb defTextCol) .none (cstr "Booting up %s %s for %s ...\n")
      [.str kernelName, .str kernelVer, .str kernelArch] =
        putText (started f fb defTextCol) (inColour defTextCol bootLine) :=
    kprintf_pieces (started f fb defTextCol) [.text (bytes "Booting up "), .str kernelName,
      .text (bytes " "), .str kernelVer, .text (bytes " for "), .str kernelArch,
      .text (bytes " ...\n")] rfl
  have hcolour : (started f fb defTextCol).textColor = defTextCol := rfl
  rw [kernelMain, hfirst, archInit_ports, logs_terminal _ (by decide)]
  simp only [putText_textColor, hcolour, putText_inColour, bootText]

theorem kernelMain_eq (isr : Nat → Word) (f : Framebuffer) (fb : Nat → UInt32) (cpu : Processor)
    (p : Platform) :
    kernelMain Platform.bus isr f fb cpu p =
      some
        { terminal := putText (started f fb defTextCol) (inColour defTextCol bootText)
          cpu := bootedCpu cpu isr
          ports := bootedPorts p } := by
  rw [kernelMain_ports, initPorts_eq, Option.map_some]

/-! ## Gates -/

/-- A descriptor of a 64-bit code segment of the kernel, as the processor reads it: present, of
privilege level 0, and long. -/
def KernelCode (d : UInt64) : Prop :=
  d.toNat.testBit 47 = true ∧ d.toNat.testBit 46 = false ∧ d.toNat.testBit 45 = false ∧
    d.toNat.testBit 44 = true ∧ d.toNat.testBit 43 = true ∧ d.toNat.testBit 53 = true ∧
      d.toNat.testBit 54 = false

instance (d : UInt64) : Decidable (KernelCode d) :=
  inferInstanceAs (Decidable (_ ∧ _ ∧ _ ∧ _ ∧ _ ∧ _ ∧ _))

/-- The selector and the attributes in a gate descriptor. -/
def gateSelector (d : BitVec 128) : Nat :=
  (d.extractLsb' 16 16).toNat

def gateAttr (d : BitVec 128) : BitVec 8 :=
  d.extractLsb' 40 8

/-- Where the processor goes for a vector, with interrupts disabled: the table has a present
interrupt gate for it, whose selector is that of a code segment of the kernel. -/
def Processor.target (c : Processor) (vec : Nat) : Option Word :=
  let gate := (c.idt vec).bits
  let selector := gateSelector gate
  if 16 * vec + 15 ≤ c.idtLimit ∧ (gateAttr gate).getLsbD 7 = true ∧
      (gateAttr gate).extractLsb' 0 5 = 0x0E ∧ selector % 8 = 0 ∧ selector ≠ 0 ∧
      selector + 7 ≤ c.gdtLimit ∧ KernelCode (c.gdt.getD (selector / 8) 0) then
    some (gateOffset gate)
  else none

theorem gateSelector_bits (e : IdtEntry) : gateSelector e.bits = e.selector.toNat := by
  have hbits : e.bits.extractLsb' 16 16 = e.selector := by
    apply BitVec.eq_of_getLsbD_eq
    intro i hi
    simp only [IdtEntry.bits, BitVec.getLsbD_extractLsb', BitVec.getLsbD_append]
    grind
  rw [gateSelector, hbits]

theorem gateAttr_bits (e : IdtEntry) : gateAttr e.bits = e.typeAttr := by
  apply BitVec.eq_of_getLsbD_eq
  intro i hi
  simp only [gateAttr, IdtEntry.bits, BitVec.getLsbD_extractLsb', BitVec.getLsbD_append]
  grind

/-- Every gate leads to its stub, through the segment that `gdt_init` has put at its selector. -/
theorem bootedCpu_stub (cpu : Processor) (isr : Nat → Word) {vec : Nat} (hvec : vec < 48) :
    (bootedCpu cpu isr).target vec = some (isr vec) := by
  have hentry : (bootedCpu cpu isr).idt vec = idtInit cpu.idt isr vec := rfl
  have hoffset := @gateOffset_idtInit cpu.idt isr vec
  rw [Processor.target, hentry]
  simp only [gateSelector_bits, gateAttr_bits]
  rw [idtInit] at hoffset ⊢
  rw [foldl_idtSetGate, if_pos hvec] at hoffset ⊢
  rw [if_pos, hoffset hvec]
  have hlimit : 16 * vec + 15 ≤ 256 * 16 - 1 := by omega
  have hsegment : (8 : BitVec 16).toNat + 7 ≤ 3 * 8 - 1 ∧
      KernelCode (gdtTable.getD ((8 : BitVec 16).toNat / 8) 0) := by decide
  simp only [idtSetGate, Function.update_self]
  exact ⟨hlimit, by decide, by decide, by decide, by decide, hsegment⟩

/-- The other vectors have no gate, in a table that was zero. -/
theorem bootedCpu_target (cpu : Processor) (isr : Nat → Word)
    (hidt : ∀ vec, (cpu.idt vec).typeAttr = 0) (vec : Nat) :
    (bootedCpu cpu isr).target vec = if vec < 48 then some (isr vec) else none := by
  by_cases hvec : vec < 48
  · rw [if_pos hvec]
    exact bootedCpu_stub cpu isr hvec
  · have hentry : (bootedCpu cpu isr).idt vec = cpu.idt vec := by
      have hidtInit : (bootedCpu cpu isr).idt vec = idtInit cpu.idt isr vec := rfl
      rw [hidtInit, idtInit, foldl_idtSetGate, if_neg hvec]
    rw [Processor.target, hentry, if_neg hvec]
    simp only [gateAttr_bits, hidt]
    exact if_neg (fun hgate => absurd hgate.2.1 (by decide))

/-! ## The system -/

/-- What the kernel finds: the addresses of its stubs, the framebuffer with its pixels, the
processor, the devices, the answers of `cpuid`, and the arrays that nobody has written to.  The
devices are taken as they are when `pic_remap` begins; nothing before it touches their ports. -/
structure PowerOn where
  isr : Nat → Word
  framebuffer : Framebuffer
  pixels : Nat → UInt32
  cpu : Processor
  platform : Platform
  machine : Machine
  past : Nat → UInt8
  line : Buffer

/-- The state in which `kernel_main` calls `ksh_run`. -/
def PowerOn.booting (m : PowerOn) : Option (Booting Platform) :=
  kernelMain Platform.bus m.isr m.framebuffer m.pixels m.cpu m.platform

/-- The system at that call; `ticks` is zero from the start. -/
def PowerOn.boot (m : PowerOn) : Option System := do
  let s ← m.booting
  some
    { shell := Shell.start m.past s.terminal m.line
      machine := { m.machine with ticks := 0 }
      platform := s.ports
      mode := .running }

/-- The system when `ksh_run` begins. -/
def PowerOn.system (m : PowerOn) : System :=
  { shell := Shell.start m.past
      (putText (started m.framebuffer m.pixels defTextCol) (inColour defTextCol bootText)) m.line
    machine := { m.machine with ticks := 0 }
    platform := bootedPorts m.platform
    mode := .running }

theorem PowerOn.boot_eq (m : PowerOn) : m.boot = some m.system := by
  simp only [PowerOn.boot, PowerOn.booting, kernelMain_eq, Option.bind_eq_bind, Option.bind_some,
    PowerOn.system]

/-- A run from `kernel_main` on. -/
def PowerOn.run (m : PowerOn) (acts : List SysAction) : Option System := do
  let s ← m.boot
  acts.foldlM System.act s

theorem PowerOn.run_eq (m : PowerOn) (acts : List SysAction) :
    m.run acts = acts.foldlM System.act m.system := by
  rw [PowerOn.run, m.boot_eq, Option.bind_eq_bind, Option.bind_some]

theorem booted_masked (p : Platform) (l : Line) :
    masked (bootedPorts p).pics l =
      (masked p.pics l && decide (l ≠ .master 0) && decide (l ≠ .master 1)) := by
  have hbit : ∀ i : Fin 8, (0xFC : UInt8).toNat.testBit i =
      (decide (Line.master i ≠ .master 0) && decide (Line.master i ≠ .master 1)) := by
    decide
  cases l with
  | master i =>
      have hmask : masked (bootedPorts p).pics (.master i) =
          (p.pics.master.imr &&& 0xFC).toNat.testBit i := rfl
      rw [hmask, UInt8.toNat_and, Nat.testBit_and, hbit, masked, Bool.and_assoc]
  | slave i =>
      simp [bootedPorts, remapped, masked]

/-- The keyboard is heard if no byte was waiting when the controllers were initialized. -/
theorem PowerOn.system_sound (m : PowerOn) :
    m.system.Sound (decide (m.platform.keyboard.queue = [])) := by
  refine ⟨⟨⟨rfl, rfl⟩, ⟨rfl, rfl⟩, rfl, rfl, rfl, rfl, Finset.notMem_empty _⟩, ⟨rfl, rfl⟩, ?_,
    fun hne => absurd rfl hne⟩
  simp only [PowerOn.system, KeyWaits]
  refine ⟨fun hdead => of_decide_eq_false hdead, fun hmem => ?_, fun hboth => ?_⟩
  · exact absurd hmem (Finset.notMem_empty _)
  · exact absurd (of_decide_eq_true hboth.1) hboth.2

theorem boot_prints {f : Framebuffer} (hf : f.Usable) (fb : Nat → UInt32) :
    Prints f (putText (started f fb defTextCol) (inColour defTextCol bootText))
      (inColour defTextCol bootText) := by
  have hplain : (8 : UInt8) ∉ bootText := by decide +kernel
  have hclear : Prints f (started f fb defTextCol) [] := clear_prints hf rfl (by decide)
  have hput : Prints f (putText (started f fb defTextCol) (inColour defTextCol bootText))
      ([] ++ inColour defTextCol bootText) := hclear.put hf (inColour_ne hplain)
  rwa [List.nil_append] at hput

/-- `kernel_main` up to the shell, on every machine: the screen shows the messages; the processor
finds the 48 stubs, and nothing else; the timer's and the keyboard's lines are unmasked, and no mask
is set; the timer counts to 11931; and no byte is taken from the keyboard. -/
theorem kernelMain_boots (m : PowerOn) (hf : m.framebuffer.Usable)
    (hidt : ∀ vec, (m.cpu.idt vec).typeAttr = 0) :
    ∃ s, m.booting = some s ∧
      Displays m.framebuffer s.terminal (inColour defTextCol bootText) ∧
      s.cpu.interruptFlag = true ∧
      (∀ vec, s.cpu.target vec = if vec < 48 then some (m.isr vec) else none) ∧
      (∀ l, masked s.ports.pics l =
        (masked m.platform.pics l && decide (l ≠ .master 0) && decide (l ≠ .master 1))) ∧
      s.ports.timer = { mode := 3, reload := 1193180 / timerFreq.toNat, low := none } ∧
      s.ports.keyboard = m.platform.keyboard := by
  have hreload : 1193180 / timerFreq.toNat = 11931 := by decide
  have hshown := (boot_prints hf m.pixels).displays hf
  rw [PowerOn.booting, kernelMain_eq, hreload]
  refine ⟨_, rfl, ?_⟩
  dsimp only
  exact ⟨hshown, rfl, bootedCpu_target m.cpu m.isr hidt, booted_masked m.platform, rfl, rfl⟩

/-- A PC that was just switched on. -/
def resetPower : PowerOn :=
  { isr := fun vec => 0x100000 + BitVec.ofNat 64 (16 * vec)
    framebuffer := vga640
    pixels := fun _ => 0
    cpu :=
      { gdt := [], gdtLimit := 0, cs := 0x28, ds := 0x30, es := 0x30, fs := 0x30, gs := 0x30
        ss := 0x30, idt := emptyIdt, idtLimit := 0, cr0 := 0x80010011, cr4 := 0x20
        interruptFlag := false }
    platform := resetPlatform
    machine := resetMachine
    past := fun _ => 0
    line := Buffer.fresh (fun _ => 0) }

theorem resetPower_usable : resetPower.framebuffer.Usable := by
  have husable : vga640.Usable := by decide
  exact husable

theorem kernelMain_boots_reset :
    ∃ s, resetPower.booting = some s ∧
      Displays vga640 s.terminal (inColour defTextCol bootText) ∧
      s.cpu.interruptFlag = true ∧
      (∀ vec, s.cpu.target vec = if vec < 48 then some (resetPower.isr vec) else none) ∧
      (∀ l, masked s.ports.pics l =
        (masked resetPower.platform.pics l && decide (l ≠ .master 0) && decide (l ≠ .master 1))) ∧
      s.ports.timer = { mode := 3, reload := 1193180 / timerFreq.toNat, low := none } ∧
      s.ports.keyboard = resetPower.platform.keyboard :=
  kernelMain_boots resetPower resetPower_usable (fun _ => rfl)

end Interrupt
end Feudos
