import Feudos.Library.Devices
import Mathlib.Logic.Function.Iterate

/-!
# A serial port

The transmitter of a 16550, which works while the program goes on: between any two accesses to its
ports it may have taken any number of steps.

- `Uart`           : the registers, the holding FIFO, the shift register and the line;
- `Uart.transmit`  : one step of the transmitter;
- `Uart.output`    : what is on the line, and what will be when the transmitter has done its work;
- `Uart.Cleared`   : what becomes of the characters in the FIFO when registers are written;
- `Uart.bus`       : the ports, with the transmitter's pace as a parameter.

The bits of the receiver in the line status are arbitrary.
-/

namespace Devices

/-- What the other side of the line receives: the format, the divisor and the character. -/
structure Frame where
  bits : Nat
  parity : Bool
  divisor : Nat
  data : Nat
  deriving DecidableEq

/-! ## The registers -/

/-- Interrupt enable, whether the FIFO is on, line control, modem control, and the divisor latch. -/
structure UartRegs where
  ier : UInt8
  fifo : Bool
  lcr : UInt8
  mcr : UInt8
  dll : UInt8
  dlm : UInt8
  deriving DecidableEq

namespace UartRegs

/-- The divisor latch access bit. -/
def dlab (r : UartRegs) : Bool :=
  r.lcr &&& 0x80 ≠ 0

/-- A break, or the loop back to the receiver, keeps the characters from the line. -/
def silent (r : UartRegs) : Bool :=
  r.lcr &&& 0x40 ≠ 0 ∨ r.mcr &&& 0x10 ≠ 0

def capacity (r : UartRegs) : Nat :=
  if r.fifo then 16 else 1

/-- A character in the present format. -/
def frame (r : UartRegs) (b : UInt8) : Frame :=
  let bits := 5 + (r.lcr &&& 3).toNat
  { bits := bits
    parity := r.lcr &&& 8 ≠ 0
    divisor := r.dll.toNat + 256 * r.dlm.toNat
    data := b.toNat % 2 ^ bits }

/-- Writing the register at an offset; there is none for the characters themselves. -/
def write (r : UartRegs) (offset : UInt16) (v : UInt8) : UartRegs :=
  if offset = 0 then (if r.dlab then { r with dll := v } else r)
  else if offset = 1 then (if r.dlab then { r with dlm := v } else { r with ier := v })
  else if offset = 2 then { r with fifo := v &&& 1 ≠ 0 }
  else if offset = 3 then { r with lcr := v }
  else { r with mcr := v }

theorem write_ier {r : UartRegs} (h : r.dlab = false) (v : UInt8) :
    r.write 1 v = { r with ier := v } := by
  simp [write, h]

theorem write_dll {r : UartRegs} (h : r.dlab = true) (v : UInt8) :
    r.write 0 v = { r with dll := v } := by
  simp [write, h]

theorem write_dlm {r : UartRegs} (h : r.dlab = true) (v : UInt8) :
    r.write 1 v = { r with dlm := v } := by
  simp [write, h]

theorem write_fcr (r : UartRegs) (v : UInt8) :
    r.write 2 v = { r with fifo := v &&& 1 ≠ 0 } := rfl

theorem write_lcr (r : UartRegs) (v : UInt8) : r.write 3 v = { r with lcr := v } := rfl

theorem write_mcr (r : UartRegs) (v : UInt8) : r.write 4 v = { r with mcr := v } := rfl

end UartRegs

/-! ## The transmitter -/

/-- `lost` has the characters that found no room, and those in a FIFO that was cleared. -/
structure Uart where
  regs : UartRegs
  receiver : UInt8
  holding : List UInt8
  shift : Option UInt8
  line : List Frame
  lost : List UInt8
  deriving DecidableEq

namespace Uart

/-- The character in the shift register is done, or the next one gets there. -/
def transmit (u : Uart) : Uart :=
  match u.shift with
  | some b =>
      { u with
        shift := none
        line := if u.regs.silent then u.line else u.line ++ [u.regs.frame b] }
  | none =>
      match u.holding with
      | [] => u
      | b :: rest => { u with shift := some b, holding := rest }

/-- The characters that are not on the line yet. -/
def pending (u : Uart) : List UInt8 :=
  u.shift.toList ++ u.holding

/-- What is on the line, and what will be. -/
def output (u : Uart) : List Frame :=
  u.line ++ u.pending.map u.regs.frame

/-- The steps that the transmitter has before it, as long as nothing new comes. -/
def work (u : Uart) : Nat :=
  2 * u.holding.length + u.shift.toList.length

/-! ## The ports -/

/-- Writing at an offset. -/
def write (u : Uart) (offset : UInt16) (v : UInt8) : Option Uart :=
  if offset = 0 ∧ u.regs.dlab = false then
    -- A character that finds no room is lost.
    some (
      if u.holding.length < u.regs.capacity then { u with holding := u.holding ++ [v] }
      else { u with lost := u.lost ++ [v] })
  else if offset ≤ 4 then
    let regs := u.regs.write offset v
    some (
      if regs.fifo ≠ u.regs.fifo ∨ offset = 2 ∧ v &&& 5 = 5 then
        { u with regs := regs, holding := [], lost := u.lost ++ u.holding }
      else { u with regs := regs })
  else
    none

/-- The line status: bit 5 for an empty FIFO, bit 6 for an empty shift register too. -/
def status (u : Uart) : UInt8 :=
  (u.receiver &&& 0x9F) ||| (if u.holding = [] then 0x20 else 0) |||
    (if u.pending = [] then 0x40 else 0)

/-- A serial port at `base`, with the number of accesses so far: before access `k` the transmitter
takes `pace k` steps. -/
def bus (base : UInt16) (pace : Nat → Nat) : PortBus (Nat × Uart) where
  outb s port v :=
    ((transmit^[pace s.1] s.2).write (port - base) v).map (fun u => (s.1 + 1, u))
  inb s port :=
    if port - base = 5 then
      let u := transmit^[pace s.1] s.2
      some (u.status, (s.1 + 1, u))
    else
      none

variable {u : Uart}

/-! ## One step -/

theorem transmit_regs (u : Uart) : u.transmit.regs = u.regs := by
  unfold transmit
  split
  · rfl
  · split <;> rfl

theorem transmit_lost (u : Uart) : u.transmit.lost = u.lost := by
  unfold transmit
  split
  · rfl
  · split <;> rfl

/-- Nothing is lost on the way to the line, and nothing is added. -/
theorem transmit_output (h : u.regs.silent = false) : u.transmit.output = u.output := by
  unfold transmit
  split
  · next b hshift =>
      simp [output, pending, hshift, h]
  · next hshift =>
      split
      · rfl
      · next b rest hholding =>
          simp [output, pending, hshift, hholding]

/-- The first character of the FIFO is taken, or none. -/
theorem transmit_sent (u : Uart) : ∃ sent, u.holding = sent ++ u.transmit.holding := by
  unfold transmit
  split
  · exact ⟨[], rfl⟩
  · split
    · exact ⟨[], rfl⟩
    · next b rest hholding =>
        exact ⟨[b], hholding⟩

theorem transmit_work (u : Uart) : u.transmit.work = u.work - 1 := by
  unfold transmit
  split
  · next b hshift =>
      simp [work, hshift]
  · next hshift =>
      split
      · next hholding =>
          simp [work, hshift, hholding]
      · next b rest hholding =>
          simp [work, hshift, hholding]
          omega

/-- The registers stay, nothing is lost, and less is to do. -/
structure Transmitted (u u' : Uart) (n : Nat) : Prop where
  regs : u'.regs = u.regs
  lost : u'.lost = u.lost
  output : u.regs.silent = false → u'.output = u.output
  work : u'.work = u.work - n
  sent : ∃ sent, u.holding = sent ++ u'.holding

theorem Transmitted.holding {u u' : Uart} {n : Nat} (h : Transmitted u u' n)
    (hempty : u.holding = []) : u'.holding = [] := by
  rcases h.sent with ⟨sent, hsent⟩
  rw [hempty] at hsent
  exact (List.append_eq_nil_iff.1 hsent.symm).2

theorem transmitted (u : Uart) (n : Nat) : Transmitted u (transmit^[n] u) n := by
  induction n with
  | zero =>
      exact ⟨rfl, rfl, fun _ => rfl, rfl, [], rfl⟩
  | succ n ih =>
      rw [Function.iterate_succ_apply']
      refine ⟨(transmit_regs _).trans ih.regs, (transmit_lost _).trans ih.lost, ?_, ?_, ?_⟩
      · intro hsilent
        rw [transmit_output (ih.regs ▸ hsilent), ih.output hsilent]
      · rw [transmit_work, ih.work, Nat.sub_sub]
      · rcases ih.sent with ⟨sent, hsent⟩
        obtain ⟨next, hnext⟩ := transmit_sent (transmit^[n] u)
        exact ⟨sent ++ next, by rw [List.append_assoc, ← hnext, hsent]⟩

/-- The FIFO has sent its first characters, and then, if it was cleared, lost the others. -/
def Cleared (u u' : Uart) : Prop :=
  ∃ sent gone, u.holding = sent ++ (gone ++ u'.holding) ∧ u'.lost = u.lost ++ gone ∧
    (gone = [] ∨ u'.holding = [])

theorem Transmitted.cleared {u u' : Uart} {n : Nat} (h : Transmitted u u' n) : Cleared u u' := by
  rcases h.sent with ⟨sent, hsent⟩
  exact ⟨sent, [], hsent, by rw [h.lost, List.append_nil], Or.inl rfl⟩

theorem Cleared.trans {u u' u'' : Uart} (h : Cleared u u') (h' : Cleared u' u'') :
    Cleared u u'' := by
  rcases h with ⟨sent, gone, hholding, hlost, hend⟩
  rcases h' with ⟨sent', gone', hholding', hlost', hend'⟩
  rcases hend with rfl | hempty
  · refine ⟨sent ++ sent', gone', ?_, ?_, hend'⟩
    · rw [hholding, hholding', List.nil_append, List.append_assoc]
    · rw [hlost', hlost, List.append_nil]
  · -- A FIFO that was cleared has nothing to send or to lose.
    rw [hempty] at hholding'
    obtain ⟨-, hrest⟩ := List.append_eq_nil_iff.1 hholding'.symm
    rcases List.append_eq_nil_iff.1 hrest with ⟨rfl, hempty'⟩
    refine ⟨sent, gone, ?_, ?_, Or.inr hempty'⟩
    · rw [hholding, hempty, hempty']
    · rw [hlost', hlost, List.append_nil]

/-- A register is written. -/
theorem write_register {offset : UInt16} {v : UInt8} (hoffset : offset ≤ 4)
    (hregister : offset ≠ 0 ∨ u.regs.dlab = true) :
    ∃ u', u.write offset v = some u' ∧ u'.regs = u.regs.write offset v ∧ Cleared u u' ∧
      (u.holding = [] ∨ offset = 2 ∧ v &&& 5 = 5 → u'.holding = []) := by
  have hnot : ¬ (offset = 0 ∧ u.regs.dlab = false) := by
    rintro ⟨hzero, hclosed⟩
    rcases hregister with hne | hopen
    · exact hne hzero
    · rw [hopen] at hclosed
      cases hclosed
  rw [write, if_neg hnot, if_pos hoffset]
  refine ⟨_, rfl, ?_⟩
  split
  · exact ⟨rfl, ⟨[], u.holding, (List.append_nil _).symm, rfl, Or.inr rfl⟩, fun _ => rfl⟩
  · next hkeep =>
      refine ⟨rfl, ⟨[], [], rfl, (List.append_nil _).symm, Or.inl rfl⟩, ?_⟩
      rintro (hempty | hclear)
      · exact hempty
      · exact absurd (Or.inr hclear) hkeep

end Uart
end Devices
