import Mathlib.Algebra.Group.Nat.Defs
import Feudos.Library.Loop

/-!
# Mapping a page (`arch/x86_64/paging.c`)

`map_page` works on the page tables in physical memory, which it reaches in two ways:

- the tables of the hierarchy through the direct map, where physical `p` is seen at
  `p + hhdm_offset`;
- the tables of `pt_scratch` through the kernel image, where `v2p` gives the physical address.

Both are fixed by the bootloader and belong to the `Platform`.  An access through either changes
the one physical memory of the `State`, and every store is also recorded, with the virtual address
it was made at.

The kernel's own variables are always there, but the pointers that `map_page` makes of the entries
may lead anywhere.  The processor refuses an access at an address that is not canonical, and one
where the direct map has no page; the call ends there, with the stores made before.
-/

namespace Feudos
namespace Paging

open CountedLoop

/-- `uint64_t`, which is also the type of addresses. -/
abbrev Word := BitVec 64

/-! ## What the bootloader leaves -/

/-- The constants of a boot: the `CR3` register, which holds the address of a page and flags in the
bits below, the offset of the direct map and whether it has a page for a page of physical memory,
the two bases of the kernel image, and the link address of `pt_scratch`.

Memory is a memory of words, so the lowest bits of `CR3`, which the processor ignores, are clear. -/
structure Platform where
  cr3 : Word
  hhdm : Word
  direct : Word → Bool
  kernelPhysBase : Word
  kernelVirtBase : Word
  ptScratch : Word
  cr3_word : cr3.toNat % 8 = 0
  cr3_bound : cr3.toNat < 2 ^ 52

/-- A store, at the virtual address it was made at. -/
inductive Store where
  | hhdm (vaddr : Word)
  | image (vaddr : Word)
deriving DecidableEq, Repr

/-- Physical memory by byte address of a word, the counter of `alloc_table`, and the stores and the
tables handed out so far, latest first. -/
structure State where
  mem : Word → Word
  ptScratchUsed : Nat
  stores : List Store
  handedOut : List Word

/-! ## Memory accesses -/

/-- Bits 47 to 63 are all equal. -/
def Canonical (v : Word) : Prop :=
  v.extractLsb' 47 17 = 0 ∨ v.extractLsb' 47 17 = BitVec.allOnes 17

instance (v : Word) : Decidable (Canonical v) := inferInstanceAs (Decidable (_ ∨ _))

/-- The processor makes an access: the address is canonical, without which there is a
general-protection fault, and the direct map has a page there, without which there is a page fault.
A physical address has 52 bits. -/
def Accepted (k : Platform) (vaddr : Word) : Prop :=
  Canonical vaddr ∧ (vaddr - k.hhdm).toNat < 2 ^ 52 ∧ k.direct ((vaddr - k.hhdm) >>> 12) = true

instance (k : Platform) (v : Word) : Decidable (Accepted k v) :=
  inferInstanceAs (Decidable (_ ∧ _ ∧ _))

/-- A refused access, at its virtual address. -/
structure Fault where
  vaddr : Word
deriving DecidableEq, Repr

/-- A part of `map_page`. -/
abbrev MapM := EStateM Fault State

/-- A load through the direct map. -/
def loadHhdm (k : Platform) (vaddr : Word) : MapM Word := do
  if Accepted k vaddr then
    return (← get).mem (vaddr - k.hhdm)
  else
    throw ⟨vaddr⟩

def writeHhdm (k : Platform) (vaddr w : Word) (s : State) : State :=
  { s with
    mem := Function.update s.mem (vaddr - k.hhdm) w
    stores := .hhdm vaddr :: s.stores }

/-- A store through the direct map. -/
def storeHhdm (k : Platform) (vaddr w : Word) : MapM Unit := do
  if Accepted k vaddr then
    modify (writeHhdm k vaddr w)
  else
    throw ⟨vaddr⟩

def v2p (k : Platform) (vaddr : Word) : Word :=
  vaddr - k.kernelVirtBase + k.kernelPhysBase

/-- A store to a variable of the kernel. -/
def storeImage (k : Platform) (vaddr w : Word) (s : State) : State :=
  { s with
    mem := Function.update s.mem (v2p k vaddr) w
    stores := .image vaddr :: s.stores }

/-! ## The functions of the file -/

/-- The address of `pt_scratch[n]`. -/
def scratchTable (k : Platform) (n : Nat) : Word :=
  k.ptScratch + 4096 * BitVec.ofNat 64 n

/-- The loop of `alloc_table`. -/
def zeroTable (k : Platform) (t : Word) (s : State) : State :=
  range 0 512 (fun i s => storeImage k (t + 8 * BitVec.ofNat 64 i) 0 s) s

/-- `alloc_table`: the next table, without a look at how many there are. -/
def allocTable (k : Platform) : MapM Word := do
  let t := scratchTable k (← get).ptScratchUsed
  modify fun s => { s with ptScratchUsed := s.ptScratchUsed + 1, handedOut := t :: s.handedOut }
  modify (zeroTable k t)
  return t

/-- `if (!(t[i] & 1)) t[i] = v2p((uint64_t)alloc_table()) | 0x3;`, with the entry at `vaddr`. -/
def ensureTable (k : Platform) (vaddr : Word) : MapM Unit := do
  if (← loadHhdm k vaddr) &&& 1 = 0 then
    let next ← allocTable k
    storeHhdm k vaddr (v2p k next ||| 3)

/-- `(uint64_t*)((t[i] & ~0xFFFULL) + hhdm_offset)`, with the entry at `vaddr`. -/
def nextTable (k : Platform) (hhdmOffset vaddr : Word) : MapM Word := do
  return ((← loadHhdm k vaddr) &&& ~~~(0xFFF : Word)) + hhdmOffset

/-- `map_page`; the closing `invlpg` leaves memory as it is. -/
def mapPage (k : Platform) (virt phys hhdmOffset : Word) : MapM Unit := do
  let pml4I := (virt >>> 39) &&& 0x1FF
  let pdptI := (virt >>> 30) &&& 0x1FF
  let pdI := (virt >>> 21) &&& 0x1FF
  let ptI := (virt >>> 12) &&& 0x1FF
  let pml4 := k.cr3 + hhdmOffset
  ensureTable k (pml4 + 8 * pml4I)
  let pdpt ← nextTable k hhdmOffset (pml4 + 8 * pml4I)
  ensureTable k (pdpt + 8 * pdptI)
  let pd ← nextTable k hhdmOffset (pdpt + 8 * pdptI)
  ensureTable k (pd + 8 * pdI)
  let pt ← nextTable k hhdmOffset (pd + 8 * pdI)
  storeHhdm k (pt + 8 * ptI) ((phys &&& ~~~(0xFFF : Word)) ||| 3)

end Paging
end Feudos
