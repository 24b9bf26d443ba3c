import Feudos.Interrupt.Entry
import Feudos.Interrupt.Pic
import Feudos.Keyboard.Driver
import Feudos.Shell.Output
import Mathlib.Tactic.FinCases

/-!
# Interrupt dispatch (`interrupt_dispatch`)

- `interruptDispatch`           : the switch over the vectors;
- `interruptDispatch_line`      : the vectors of the interrupt controllers, on a PC's devices;
- `interruptDispatch_exception` : what the other vectors report, and which of them return.
-/

namespace Feudos
namespace Interrupt

open Devices Vga WordStack

variable {σ : Type}

/-! ## The dispatcher -/

/-- What the handlers reach: the kernel, the timer's `ticks` and the ports. -/
structure Core (σ : Type) where
  kernel : Kernel
  ticks : UInt64
  ports : σ

def Core.print (s : Core σ) (f : Terminal → Terminal) : Core σ :=
  { s with kernel := { s.kernel with terminal := f s.kernel.terminal } }

/-- `timer_tick`. -/
def timerTick (s : Core σ) : Core σ :=
  { s with ticks := s.ticks + 1 }

/-- A word of the context as an argument. -/
def ulong (w : Word) : VaArg :=
  .ulong (UInt64.ofBitVec w)

/-- `KPANIC_DBG`. -/
def kpanicDbg (t : Terminal) (ctx : IdtCtx) : Terminal :=
  let t := kprintf t (cstr "RIP    = 0x%X\n") [ulong ctx.rip]
  let t := kprintf t (cstr "CS     = 0x%X\n") [ulong ctx.cs]
  kprintf t (cstr "RFLAGS = 0x%X\n") [ulong ctx.rflags]

/-- `interrupt_dispatch`, where `cr2` is the register of that name: the state it leaves, and whether
it returns. -/
def interruptDispatch (bus : PortBus σ) (cr2 : UInt64) (ctx : IdtCtx) (s : Core σ) :
    Option (Core σ × Bool) :=
  match ctx.vector.toNat with
  | 0x00 =>
      some (s.print fun t =>
        kernelPanic (kpanicDbg t ctx) (cstr "Unhandled division by zero.\n") [], false)
  | 0x03 =>
      some (s.print fun t =>
        kprintf t (cstr "[DEBUG] Reached breakpoint at RIP: 0x%X\n") [ulong ctx.rip], true)
  | 0x06 =>
      some (s.print fun t =>
        kernelPanic (kpanicDbg t ctx) (cstr "Illegal instruction.") [], false)
  | 0x08 =>
      some (s.print fun t =>
        kprintf t (cstr "Double fault! Unrecoverable CPU state.\n") [], true)
  | 0x0D =>
      some (s.print fun t =>
        kprintf (kpanicDbg t ctx) (cstr "General Protection fault; GPF err code: 0x%X\n")
          [ulong ctx.errc], true)
  | 0x0E =>
      some (s.print fun t =>
        let t := kpanicDbg t ctx
        let t := kprintf t (cstr "Page Fault accessing 0x%X\n") [.ulong cr2]
        let t := kprintf t (cstr "Error code (flags): 0x%X\n") [ulong ctx.errc]
        kernelPanic t (cstr "Page fault.\n") [], false)
  | 0x20 => do
      let s := timerTick s
      let ports ← picSendEoi bus s.ports 0
      some ({ s with ports := ports }, true)
  | 0x21 => do
      let (scancode, ports) ← bus.inb s.ports 0x60
      let s := { s with kernel := kbdHandleScancode s.kernel scancode }
      let ports ← picSendEoi bus ports 1
      some ({ s with ports := ports }, true)
  | vector =>
      if 0x20 ≤ vector ∧ vector ≤ 0x2F then do
        let ports ← picSendEoi bus s.ports (UInt8.ofNat (vector - 0x20))
        some ({ s with ports := ports }, true)
      else
        -- The number printed is the error code.
        some (s.print fun t =>
          kprintf t (cstr "Unknown exception %lu at 0x%X\n") [ulong ctx.errc, ulong ctx.rip], true)

/-! ## The vectors of the controllers -/

/-- What the handler of a line does, before the ends of interrupt. -/
def lineHandler : Line → Core Platform → Core Platform
  | .master 0, s => timerTick s
  | .master 1, s =>
      { s with
        kernel := kbdHandleScancode s.kernel s.ports.readKeyboard.1
        ports := s.ports.readKeyboard.2 }
  | _, s => s

def Core.eoi (s : Core Platform) (l : Line) : Core Platform :=
  { s with ports := { s.ports with pics := s.ports.pics.eoi l } }

/-- The vectors 0x20 to 0x2F end the interrupt of their line, and return. -/
theorem interruptDispatch_line (cr2 : UInt64) {ctx : IdtCtx} {l : Line}
    (hvector : ctx.vector.toNat = 0x20 + (irqOf l).toNat) (s : Core Platform) :
    interruptDispatch Platform.bus cr2 ctx s = some ((lineHandler l s).eoi l, true) := by
  rw [interruptDispatch, hvector]
  cases l with
  | master i =>
      fin_cases i <;> rfl
  | slave i =>
      fin_cases i <;> rfl

/-! ## The other vectors -/

/-- A word in hexadecimal behind a head. -/
def hexLine (head : String) (w : UInt64) : List UInt8 :=
  bytes head ++ (kprintUint w 16 ++ [10])

def registersText (ctx : IdtCtx) : List UInt8 :=
  hexLine "RIP    = 0x" (UInt64.ofBitVec ctx.rip) ++
    (hexLine "CS     = 0x" (UInt64.ofBitVec ctx.cs) ++
      hexLine "RFLAGS = 0x" (UInt64.ofBitVec ctx.rflags))

/-- What is printed for an exception, and the message of the panic it ends in, if it does. -/
def exceptionReport (cr2 : UInt64) (ctx : IdtCtx) : List UInt8 × Option (List UInt8) :=
  match ctx.vector.toNat with
  | 0x00 => (registersText ctx, some (bytes "Unhandled division by zero.\n"))
  | 0x03 => (hexLine "[DEBUG] Reached breakpoint at RIP: 0x" (UInt64.ofBitVec ctx.rip), none)
  | 0x06 => (registersText ctx, some (bytes "Illegal instruction."))
  | 0x08 => (bytes "Double fault! Unrecoverable CPU state.\n", none)
  | 0x0D =>
      (registersText ctx ++
        hexLine "General Protection fault; GPF err code: 0x" (UInt64.ofBitVec ctx.errc), none)
  | 0x0E =>
      (registersText ctx ++ (hexLine "Page Fault accessing 0x" cr2 ++
        hexLine "Error code (flags): 0x" (UInt64.ofBitVec ctx.errc)), some (bytes "Page fault.\n"))
  | _ =>
      (bytes "Unknown exception " ++ (kprintUint (UInt64.ofBitVec ctx.errc) 10 ++
        hexLine " at 0x" (UInt64.ofBitVec ctx.rip)), none)

/-- A report on the terminal. -/
def applyReport (report : List UInt8 × Option (List UInt8)) (t : Terminal) : Terminal :=
  let t := (Effect.prints report.1).apply t
  match report.2 with
  | none => t
  | some msg => (Effect.panics msg).apply t

theorem kpanicDbg_eq (t : Terminal) (ctx : IdtCtx) :
    kpanicDbg t ctx = putText t (inColour t.textColor (registersText ctx)) := by
  have hrip : ∀ t, kprintf t (cstr "RIP    = 0x%X\n") [ulong ctx.rip] =
      putText t (inColour t.textColor (hexLine "RIP    = 0x" (UInt64.ofBitVec ctx.rip))) :=
    fun t => kprintf_pieces t
      [.text (bytes "RIP    = 0x"), .hex (UInt64.ofBitVec ctx.rip), .text [10]] rfl
  have hcs : ∀ t, kprintf t (cstr "CS     = 0x%X\n") [ulong ctx.cs] =
      putText t (inColour t.textColor (hexLine "CS     = 0x" (UInt64.ofBitVec ctx.cs))) :=
    fun t => kprintf_pieces t
      [.text (bytes "CS     = 0x"), .hex (UInt64.ofBitVec ctx.cs), .text [10]] rfl
  have hrflags : ∀ t, kprintf t (cstr "RFLAGS = 0x%X\n") [ulong ctx.rflags] =
      putText t (inColour t.textColor (hexLine "RFLAGS = 0x" (UInt64.ofBitVec ctx.rflags))) :=
    fun t => kprintf_pieces t
      [.text (bytes "RFLAGS = 0x"), .hex (UInt64.ofBitVec ctx.rflags), .text [10]] rfl
  simp only [kpanicDbg, hrip, hcs, hrflags, putText_textColor, putText_inColour, registersText,
    List.append_assoc]

theorem applyReport_returns (text : List UInt8) (t : Terminal) :
    applyReport (text, none) t = putText t (inColour t.textColor text) := rfl

theorem applyReport_panics (text msg : List UInt8) (t : Terminal) :
    applyReport (text, some msg) t =
      (Effect.panics msg).apply (putText t (inColour t.textColor text)) := rfl

theorem print_congr (s : Core σ) {f g : Terminal → Terminal} (h : ∀ t, f t = g t) (returns : Bool) :
    some (s.print f, returns) = some (s.print g, returns) := by
  rw [funext h]

/-- A panic with a fixed message. -/
theorem kernelPanic_text (t : Terminal) {msg : List UInt8}
    (hmsg : (Piece.text msg).proper = true) :
    kernelPanic t (msg ++ [0]) [] = (Effect.panics msg).apply t := by
  have h := kernelPanic_eq t [.text msg] (by simpa using hmsg)
  simpa [Piece.format, Piece.args, Piece.shown] using h

/-- The registers, and a panic. -/
theorem panic_report (t : Terminal) (ctx : IdtCtx) {msg : List UInt8}
    (hmsg : (Piece.text msg).proper = true) :
    kernelPanic (kpanicDbg t ctx) (msg ++ [0]) [] =
      applyReport (registersText ctx, some msg) t := by
  rw [applyReport_panics, kpanicDbg_eq]
  exact kernelPanic_text _ hmsg

theorem generalProtection_report (t : Terminal) (ctx : IdtCtx) :
    kprintf (kpanicDbg t ctx) (cstr "General Protection fault; GPF err code: 0x%X\n")
        [ulong ctx.errc] =
      applyReport (registersText ctx ++ hexLine "General Protection fault; GPF err code: 0x"
        (UInt64.ofBitVec ctx.errc), none) t := by
  have herrc : ∀ t, kprintf t (cstr "General Protection fault; GPF err code: 0x%X\n")
      [ulong ctx.errc] = putText t (inColour t.textColor
        (hexLine "General Protection fault; GPF err code: 0x" (UInt64.ofBitVec ctx.errc))) :=
    fun t => kprintf_pieces t [.text (bytes "General Protection fault; GPF err code: 0x"),
      .hex (UInt64.ofBitVec ctx.errc), .text [10]] rfl
  rw [applyReport_returns, kpanicDbg_eq, herrc, putText_textColor, putText_inColour]

theorem pageFault_report (cr2 : UInt64) (ctx : IdtCtx) (t : Terminal) :
    kernelPanic (kprintf (kprintf (kpanicDbg t ctx) (cstr "Page Fault accessing 0x%X\n")
        [.ulong cr2]) (cstr "Error code (flags): 0x%X\n") [ulong ctx.errc])
        (cstr "Page fault.\n") [] =
      applyReport (registersText ctx ++ (hexLine "Page Fault accessing 0x" cr2 ++
        hexLine "Error code (flags): 0x" (UInt64.ofBitVec ctx.errc)), some (bytes "Page fault.\n"))
        t := by
  have hcr2 : ∀ t, kprintf t (cstr "Page Fault accessing 0x%X\n") [.ulong cr2] =
      putText t (inColour t.textColor (hexLine "Page Fault accessing 0x" cr2)) :=
    fun t => kprintf_pieces t
      [.text (bytes "Page Fault accessing 0x"), .hex cr2, .text [10]] rfl
  have herrc : ∀ t, kprintf t (cstr "Error code (flags): 0x%X\n") [ulong ctx.errc] =
      putText t (inColour t.textColor
        (hexLine "Error code (flags): 0x" (UInt64.ofBitVec ctx.errc))) :=
    fun t => kprintf_pieces t [.text (bytes "Error code (flags): 0x"),
      .hex (UInt64.ofBitVec ctx.errc), .text [10]] rfl
  rw [applyReport_panics]
  simp only [kpanicDbg_eq, hcr2, herrc, putText_textColor, putText_inColour, List.append_assoc]
  exact kernelPanic_text _ rfl

/-- A vector that is not one of the controllers' changes nothing but the terminal, which gets the
report. -/
theorem interruptDispatch_exception (bus : PortBus σ) (cr2 : UInt64) {ctx : IdtCtx}
    (hvector : ¬ (0x20 ≤ ctx.vector.toNat ∧ ctx.vector.toNat ≤ 0x2F)) (s : Core σ) :
    interruptDispatch bus cr2 ctx s =
      some (s.print (applyReport (exceptionReport cr2 ctx)),
        (exceptionReport cr2 ctx).2.isNone) := by
  unfold interruptDispatch exceptionReport
  generalize ctx.vector.toNat = vector at hvector ⊢
  -- The cases of the switch, in its order.
  split
  · exact print_congr s (fun t => panic_report t ctx rfl) false
  · refine print_congr s (fun t => ?_) true
    exact kprintf_pieces t [.text (bytes "[DEBUG] Reached breakpoint at RIP: 0x"),
      .hex (UInt64.ofBitVec ctx.rip), .text [10]] rfl
  · exact print_congr s (fun t => panic_report t ctx rfl) false
  · refine print_congr s (fun t => ?_) true
    exact kprintf_pieces t
      [.text (bytes "Double fault! Unrecoverable CPU state.\n")] rfl
  · exact print_congr s (fun t => generalProtection_report t ctx) true
  · exact print_congr s (fun t => pageFault_report cr2 ctx t) false
  · exact absurd ⟨by decide, by decide⟩ hvector
  · exact absurd ⟨by decide, by decide⟩ hvector
  · next h0 h3 h6 h8 hD hE _ _ =>
      rw [if_neg hvector]
      split
      · exact absurd rfl h0
      · exact absurd rfl h3
      · exact absurd rfl h6
      · exact absurd rfl h8
      · exact absurd rfl hD
      · exact absurd rfl hE
      · refine print_congr s (fun t => ?_) true
        exact kprintf_pieces t [.text (bytes "Unknown exception "),
          .lu (UInt64.ofBitVec ctx.errc), .text (bytes " at 0x"), .hex (UInt64.ofBitVec ctx.rip),
          .text [10]] rfl

end Interrupt
end Feudos
