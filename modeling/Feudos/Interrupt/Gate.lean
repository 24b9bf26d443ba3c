import Feudos.Interrupt.Machine

/-!
# The interrupt descriptor table (`arch/x86_64/idt.c`)

- `IdtEntry.bits` : the sixteen bytes of an entry, as the processor sees them;
- `gateOffset`    : the address that the processor takes from a gate;
- `gateOffset_idtInit` : it is the address of the stub that `idt_init` installed.
-/

namespace Feudos
namespace Interrupt

open WordStack

/-- `struct idt_entry`, which is packed. -/
structure IdtEntry where
  offsetLow : BitVec 16
  selector : BitVec 16
  ist : BitVec 8
  typeAttr : BitVec 8
  offsetMid : BitVec 16
  offsetHigh : BitVec 32
  zero : BitVec 32

/-- The entry in memory: the first field is in the lowest bytes. -/
def IdtEntry.bits (e : IdtEntry) : BitVec 128 :=
  e.zero ++ e.offsetHigh ++ e.offsetMid ++ e.typeAttr ++ e.ist ++ e.selector ++ e.offsetLow

/-- The handler address in a gate descriptor: bits 0 to 15, 48 to 63 and 64 to 95. -/
def gateOffset (d : BitVec 128) : Word :=
  d.extractLsb' 64 32 ++ d.extractLsb' 48 16 ++ d.extractLsb' 0 16

/-- The table is an array of 256 entries. -/
abbrev Idt := Nat → IdtEntry

/-- `idt_set_gate`. -/
def idtSetGate (idt : Idt) (vec : Nat) (addr : Word) : Idt :=
  Function.update idt vec
    { offsetLow := (addr &&& 0xFFFF).setWidth 16
      selector := 0x08
      ist := 0
      typeAttr := 0x8E
      offsetMid := ((addr >>> 16) &&& 0xFFFF).setWidth 16
      offsetHigh := ((addr >>> 32) &&& 0xFFFFFFFF).setWidth 32
      zero := 0 }

/-- `idt_init`, but for `lidt`: the stubs `isr0` to `isr47`, at the addresses `isr`. -/
def idtInit (idt : Idt) (isr : Nat → Word) : Idt :=
  (List.range 48).foldl (fun idt vec => idtSetGate idt vec (isr vec)) idt

/-! ## Putting the address together -/

theorem gateOffset_bits (e : IdtEntry) :
    gateOffset e.bits = e.offsetHigh ++ e.offsetMid ++ e.offsetLow := by
  apply BitVec.eq_of_getLsbD_eq
  intro i hi
  -- Bit `i` of the address is in the field whose bits of the entry are read for it.
  simp only [gateOffset, IdtEntry.bits, BitVec.getLsbD_extractLsb', BitVec.getLsbD_append]
  grind

/-- The masks of `idt_set_gate` are those of its fields. -/
theorem setWidth_mask {n : Nat} (x : Word) {mask : Word}
    (hmask : mask.setWidth n = BitVec.allOnes n) : (x &&& mask).setWidth n = x.setWidth n := by
  rw [BitVec.setWidth_and, hmask, BitVec.and_allOnes]

theorem append_parts (addr : Word) :
    (addr >>> 32).setWidth 32 ++ (addr >>> 16).setWidth 16 ++ addr.setWidth 16 = addr := by
  apply BitVec.eq_of_getLsbD_eq
  intro i hi
  simp only [BitVec.getLsbD_append, BitVec.getLsbD_setWidth, BitVec.getLsbD_ushiftRight]
  grind

theorem gateOffset_idtSetGate (idt : Idt) (vec : Nat) (addr : Word) :
    gateOffset (idtSetGate idt vec addr vec).bits = addr := by
  have hmask16 : (0xFFFF : Word).setWidth 16 = BitVec.allOnes 16 := rfl
  have hmask32 : (0xFFFFFFFF : Word).setWidth 32 = BitVec.allOnes 32 := rfl
  rw [gateOffset_bits, idtSetGate, Function.update_self]
  simp only [setWidth_mask _ hmask16, setWidth_mask _ hmask32]
  exact append_parts addr

theorem foldl_idtSetGate (idt : Idt) (isr : Nat → Word) (n vec : Nat) :
    (List.range n).foldl (fun idt vec => idtSetGate idt vec (isr vec)) idt vec =
      if vec < n then idtSetGate idt vec (isr vec) vec else idt vec := by
  induction n with
  | zero =>
      rfl
  | succ n ih =>
      rw [List.range_succ, List.foldl_append]
      -- The last gate is set behind all others, and does not touch them.
      by_cases hvec : vec = n
      · subst hvec
        simp [idtSetGate]
      · have hiff : vec < n + 1 ↔ vec < n := by omega
        simp only [List.foldl_cons, List.foldl_nil, hiff]
        rw [← ih, idtSetGate, Function.update_of_ne hvec]

/-- The processor finds the stub that `idt_init` installed. -/
theorem gateOffset_idtInit (idt : Idt) (isr : Nat → Word) {vec : Nat} (hvec : vec < 48) :
    gateOffset (idtInit idt isr vec).bits = isr vec := by
  rw [idtInit, foldl_idtSetGate, if_pos hvec, gateOffset_idtSetGate]

end Interrupt
end Feudos
