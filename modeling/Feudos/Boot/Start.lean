import Feudos.Interrupt.Boot
import Feudos.Paging.Translate
import Feudos.Serial.Port

/-!
# The entry point (`arch/x86_64/boot.c`)

- `start`            : `_start`, from the answers of the boot loader to the call of `ksh_run`;
- `start_answered`   : what it comes to, if the boot loader has answered;
- `start_boots`      : the state of the machine behind it, if the page tables are in order too;
- `start_hcf_iff`    : when the kernel gives up.
-/

namespace Feudos
namespace Boot

open Faulting Interrupt Vga Paging Serial

/-! ## The requests -/

/-- What the boot loader has written into the requests; a response that is NULL is `none`. -/
structure Requests where
  baseRevision : UInt64
  hhdm : Option Word
  kaddr : Option (Word × Word)
  framebuffers : Option (List Framebuffer)

/-- The machine that `_start` finds: the processor and the devices (`PowerOn`), the serial port with
its pace, and the page tables. -/
structure Loaded where
  power : PowerOn
  pace : Nat → Nat
  time : Nat
  uart : Devices.Uart
  paging : Paging.Platform
  tables : Paging.State

/-- The machine when `ksh_run` is called. -/
structure Running where
  paging : Paging.Platform
  tables : Paging.State
  uart : Devices.Uart
  booting : Booting Devices.Platform

/-- `hcf`, an access refused to `map_page`, for which there is no handler yet, or the call of
`ksh_run`. -/
inductive Outcome
  | hcf
  | fault (e : Paging.Fault)
  | running (s : Running)

/-- The globals `hhdm_offset`, `kernel_phys_base` and `kernel_virt_base`. -/
def setGlobals (k : Paging.Platform) (offset physicalBase virtualBase : Word) : Paging.Platform :=
  { k with hhdm := offset, kernelPhysBase := physicalBase, kernelVirtBase := virtualBase }

/-- The end of `_start`, with what `map_page` has come to: `kernel_main`. -/
def startKernel (m : Loaded) (f : Framebuffer) (k : Paging.Platform) (uart : Devices.Uart) :
    EStateM.Result Paging.Fault Paging.State Unit → Option Outcome
  | .error e _ => some (.fault e)
  | .ok _ tables => do
      let booting ← kernelMain Devices.Platform.bus m.power.isr f m.power.pixels m.power.cpu
        m.power.platform
      some (.running { paging := k, tables := tables, uart := uart, booting := booting })

/-- `_start`. -/
def start (m : Loaded) (r : Requests) : Option Outcome :=
  -- `LIMINE_BASE_REVISION_SUPPORTED`
  if r.baseRevision ≠ 0 then some .hcf
  else
    match r.hhdm, r.kaddr with
    | some offset, some (physicalBase, virtualBase) =>
        match r.framebuffers with
        | some (gFramebuffer :: _) => do
            let (_, uart) ← serialInit (port m.pace) (m.time, m.uart)
            let k := setGlobals m.paging offset physicalBase virtualBase
            startKernel m gFramebuffer k uart (mapPage k (offset + 0xB8000) 0xB8000 offset m.tables)
        | _ => some .hcf
    | _, _ => some .hcf

/-! ## The boot -/

/-- The answers that the kernel needs. -/
def Answered (r : Requests) : Prop :=
  r.baseRevision = 0 ∧ r.hhdm.isSome = true ∧ r.kaddr.isSome = true ∧
    ∃ f fs, r.framebuffers = some (f :: fs)

/-- What `serial_init` leaves in the registers of the port. -/
def serialRegs (before : Devices.UartRegs) : Devices.UartRegs :=
  { ier := if before.dlab then before.ier else 0
    fifo := true, lcr := 0x03, mcr := 0x0B, dll := 3, dlm := 0 }

/-- With all the answers, it is up to `map_page` whether `_start` runs through to the shell. -/
theorem start_answered (m : Loaded) {r : Requests} {offset physicalBase virtualBase : Word}
    {f : Framebuffer} {fs : List Framebuffer} (hrevision : r.baseRevision = 0)
    (hhhdm : r.hhdm = some offset) (hkaddr : r.kaddr = some (physicalBase, virtualBase))
    (hframebuffers : r.framebuffers = some (f :: fs)) :
    ∃ uart, uart.holding = [] ∧ uart.regs = serialRegs m.uart.regs ∧
      start m r = startKernel m f (setGlobals m.paging offset physicalBase virtualBase) uart
        (mapPage (setGlobals m.paging offset physicalBase virtualBase) (offset + 0xB8000) 0xB8000
          offset m.tables) := by
  rcases serialInit_eq m.pace m.time m.uart with ⟨uart, hserial, hempty, -, hregs⟩
  refine ⟨uart, hempty, hregs, ?_⟩
  -- The call stays closed while the cases of `start` are gone through.
  generalize hmap : mapPage (setGlobals m.paging offset physicalBase virtualBase) (offset + 0xB8000)
    0xB8000 offset m.tables = result
  rw [start, hrevision, if_neg (not_not_intro rfl), hhhdm, hkaddr]
  dsimp only
  rw [hframebuffers]
  dsimp only
  rw [hserial, Option.bind_eq_bind, Option.bind_some]
  dsimp only
  rw [hmap]

theorem startKernel_ok (m : Loaded) (f : Framebuffer) (k : Paging.Platform) (uart : Devices.Uart)
    (tables : Paging.State) :
    startKernel m f k uart (.ok () tables) = some (.running
      { paging := k
        tables := tables
        uart := uart
        booting :=
          { terminal := putText (started f m.power.pixels defTextCol) (inColour defTextCol bootText)
            cpu := bootedCpu m.power.cpu m.power.isr
            ports := bootedPorts m.power.platform } }) := by
  simp only [startKernel, kernelMain_eq, Option.bind_eq_bind, Option.bind_some]

/-- The kernel gives up exactly if an answer is missing. -/
theorem start_hcf_iff (m : Loaded) (r : Requests) : start m r = some .hcf ↔ ¬ Answered r := by
  constructor
  · rintro hhcf ⟨hrevision, hhhdm, hkaddr, f, fs, hframebuffers⟩
    rcases Option.isSome_iff_exists.1 hhhdm with ⟨offset, hoffset⟩
    rcases Option.isSome_iff_exists.1 hkaddr with ⟨⟨physicalBase, virtualBase⟩, hbases⟩
    rcases start_answered m hrevision hoffset hbases hframebuffers with ⟨uart, -, -, hruns⟩
    rw [hhcf] at hruns
    generalize mapPage _ _ _ _ _ = result at hruns
    cases result with
    | ok u tables =>
        rw [startKernel_ok] at hruns
        cases hruns
    | error e tables =>
        cases hruns
  · intro hmissing
    rw [start]
    split
    · rfl
    · next hrevision =>
        split
        · next offset physicalBase virtualBase hoffset hbases =>
            split
            · next f fs hframebuffers =>
                exact absurd ⟨not_not.1 hrevision, by rw [hoffset]; rfl, by rw [hbases]; rfl, f, fs,
                  hframebuffers⟩ hmissing
            · rfl
        · rfl

/-- If the boot loader has answered, and its page tables are a tree without large pages, `_start`
comes to the shell: the page of the text buffer is mapped into the direct map, and every other
address translates as before; the serial port has its registers set and nothing in the FIFO; and the
system goes on as `PowerOn.run` has it, on the first framebuffer. -/
theorem start_boots (m : Loaded) (r : Requests) (offset physicalBase virtualBase : Word)
    (f : Framebuffer) (fs : List Framebuffer) (hrevision : r.baseRevision = 0)
    (hhhdm : r.hhdm = some offset) (hkaddr : r.kaddr = some (physicalBase, virtualBase))
    (hframebuffers : r.framebuffers = some (f :: fs)) (hcanonical : Canonical (offset + 0xB8000))
    (hscratch : ∀ n, n < 4 → ScratchPage (setGlobals m.paging offset physicalBase virtualBase) n)
    (hready : Ready (setGlobals m.paging offset physicalBase virtualBase) m.tables)
    (hused : m.tables.ptScratchUsed = 0) :
    ∃ s, start m r = some (.running s) ∧
      (∀ v, hwWalk s.paging (view s.tables) v =
        if SamePage v (offset + 0xB8000) then
          some ⟨pageEntry 0xB8000, 0xB8000 + (v &&& 0xFFF)⟩
        else hwWalk s.paging (view m.tables) v) ∧
      s.uart.holding = [] ∧ s.uart.regs = serialRegs m.uart.regs ∧
      ({ m.power with framebuffer := f } : PowerOn).booting = some s.booting := by
  rcases start_answered m hrevision hhhdm hkaddr hframebuffers with ⟨uart, hempty, hregs, hruns⟩
  have hoffset : (setGlobals m.paging offset physicalBase virtualBase).hhdm = offset := rfl
  generalize setGlobals m.paging offset physicalBase virtualBase = k at *
  have hphys : (0xB8000 : Word).toNat < 2 ^ 52 := by decide
  have hpage : (0xB8000 : Word) &&& ~~~(0xFFF : Word) = 0xB8000 := by decide
  have hcalls : ∀ call ∈ [((offset + 0xB8000, 0xB8000) : Word × Word)],
      Canonical call.1 ∧ call.2.toNat < 2 ^ 52 := by
    intro call hmem
    rw [List.mem_singleton.1 hmem]
    exact ⟨hcanonical, hphys⟩
  -- One call takes three tables at most, and there are four.
  have hfour : (ended (mapPages k [(offset + 0xB8000, 0xB8000)] m.tables)).ptScratchUsed ≤ 4 := by
    rw [mapPages_singleton]
    exact Nat.le_trans (mapPage_used_le_add k _ _ m.tables) (by omega)
  rcases mapPages_walk hscratch hready hcalls hfour with ⟨tables, hmap, hwalk⟩
  rw [mapPages_singleton, hoffset] at hmap
  rw [hmap, startKernel_ok] at hruns
  refine ⟨_, hruns, fun v => ?_, hempty, hregs, ?_⟩
  · -- The text buffer begins a page, so the leaf holds its address as it is.
    have hv := hwalk v
    simp only [requested, Option.none_or] at hv
    by_cases hsame : SamePage v (offset + 0xB8000)
    · rw [if_pos hsame] at hv ⊢
      simp only [hpage] at hv
      exact hv
    · rw [if_neg hsame] at hv ⊢
      exact hv
  · rw [PowerOn.booting, kernelMain_eq]

/-- A PC with a kernel image at 1 MB and a direct map of 2 MB, whose serial port was in use. -/
def resetLoaded : Loaded :=
  { power := resetPower, pace := fun k => k % 2, time := 0, uart := usedUart
    paging := bootPlatform, tables := bootState }

def resetRequests : Requests :=
  { baseRevision := 0, hhdm := some 0xFFFF800000000000
    kaddr := some (0x100000, 0xFFFFFFFF80000000), framebuffers := some [vga640] }

theorem start_boots_reset :
    ∃ s, start resetLoaded resetRequests = some (.running s) ∧
      (∀ v, hwWalk s.paging (view s.tables) v =
        if SamePage v (0xFFFF800000000000 + 0xB8000) then
          some ⟨pageEntry 0xB8000, 0xB8000 + (v &&& 0xFFF)⟩
        else hwWalk s.paging (view resetLoaded.tables) v) ∧
      s.uart.holding = [] ∧ s.uart.regs = serialRegs resetLoaded.uart.regs ∧
      ({ resetLoaded.power with framebuffer := vga640 } : PowerOn).booting = some s.booting :=
  start_boots resetLoaded resetRequests 0xFFFF800000000000 0x100000 0xFFFFFFFF80000000 vga640 []
    rfl rfl rfl rfl (by decide)
    (by
      have hscratch : ∀ n, n < 4 → ScratchPage bootPlatform n := by decide
      exact hscratch)
    ready_bootState rfl

end Boot
end Feudos
