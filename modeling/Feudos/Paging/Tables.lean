import Feudos.Library.RadixTree
import Feudos.Paging.MapPage

/-!
# Page tables as a radix tree

Physical memory is read as a memory of nodes: a node is a page frame, an index is nine bits, an
entry is a word, and `address f i` is where entry `i` of frame `f` lies.

- `frameOf`  : the frame that `map_page` goes on with, all bits from 12 up;
- `hwFrame`  : the frame that the processor goes on with, bits 12 to 51;
- `hwNext`   : the table an entry leads to for the processor;
- `view_*`   : a store is `RadixTree.set`, and the loop of `alloc_table` is `RadixTree.clear`.
-/

namespace Feudos
namespace Paging

open CountedLoop

/-- A page frame, by its number. -/
abbrev Frame := BitVec 52

/-- An index into a table. -/
abbrev Index := BitVec 9

/-! ## Entries -/

/-- The bits from 12 up. -/
def frameOf (e : Word) : Frame := e.extractLsb' 12 52

/-- Bits 12 to 51, the address field of an entry. -/
def hwFrame (e : Word) : Frame := (e.extractLsb' 12 40).setWidth 52

def Present (e : Word) : Prop := e.getLsbD 0 = true

/-- Bit 7: the entry is a leaf, when it is in a page directory or above. -/
def PageSize (e : Word) : Prop := e.getLsbD 7 = true

def Writable (e : Word) : Prop := e.getLsbD 1 = true

/-- No-execute and the bits left to software are clear. -/
def HighClear (e : Word) : Prop := e.extractLsb' 52 12 = 0

instance (e : Word) : Decidable (Present e) := inferInstanceAs (Decidable (_ = _))
instance (e : Word) : Decidable (PageSize e) := inferInstanceAs (Decidable (_ = _))
instance (e : Word) : Decidable (Writable e) := inferInstanceAs (Decidable (_ = _))
instance (e : Word) : Decidable (HighClear e) := inferInstanceAs (Decidable (_ = _))

/-- The table that an entry of an upper level leads to. -/
def hwNext (e : Word) : Option Frame :=
  if Present e ∧ ¬ PageSize e then some (hwFrame e) else none

/-- The entry of the last level, when it maps a page. -/
def hwLeaf (e : Word) : Option Word :=
  if Present e then some e else none

/-! ## Addresses -/

/-- The physical address of entry `i` of frame `f`. -/
def address (f : Frame) (i : Index) : Word :=
  BitVec.ofNat 64 (4096 * f.toNat + 8 * i.toNat)

/-- The nine bits of a virtual address from bit `lsb` up. -/
def index (v : Word) (lsb : Nat) : Index := v.extractLsb' lsb 9

theorem toNat_address (f : Frame) (i : Index) :
    (address f i).toNat = 4096 * f.toNat + 8 * i.toNat := by
  have hf := f.isLt
  have hi := i.isLt
  rw [address, BitVec.toNat_ofNat, Nat.mod_eq_of_lt]
  omega

theorem address_inj {f f' : Frame} {i i' : Index} :
    address f i = address f' i' ↔ f = f' ∧ i = i' := by
  constructor
  · intro h
    have hNat := congrArg BitVec.toNat h
    rw [toNat_address, toNat_address] at hNat
    have hi := i.isLt
    have hi' := i'.isLt
    exact ⟨BitVec.eq_of_toNat_eq (by omega), BitVec.eq_of_toNat_eq (by omega)⟩
  · rintro ⟨rfl, rfl⟩
    rfl

theorem toNat_frameOf (e : Word) : (frameOf e).toNat = e.toNat / 2 ^ 12 := by
  have he := e.isLt
  rw [frameOf, BitVec.extractLsb'_toNat, Nat.shiftRight_eq_div_pow, Nat.mod_eq_of_lt]
  omega

theorem toNat_hwFrame (e : Word) : (hwFrame e).toNat = e.toNat / 2 ^ 12 % 2 ^ 40 := by
  rw [hwFrame, BitVec.toNat_setWidth, BitVec.extractLsb'_toNat, Nat.shiftRight_eq_div_pow]
  omega

theorem toNat_index (v : Word) (lsb : Nat) : (index v lsb).toNat = v.toNat / 2 ^ lsb % 2 ^ 9 := by
  rw [index, BitVec.extractLsb'_toNat, Nat.shiftRight_eq_div_pow]

/-- `x & 0x1FF` -/
theorem and_index (v : Word) (lsb : Nat) :
    (v >>> lsb) &&& 0x1FF = (index v lsb).setWidth 64 := by
  apply BitVec.eq_of_toNat_eq
  have hmask : (0x1FF : Word).toNat = 2 ^ 9 - 1 := rfl
  calc
    (v >>> lsb &&& 0x1FF).toNat
        = v.toNat / 2 ^ lsb % 2 ^ 9 := by
          rw [BitVec.toNat_and, hmask, Nat.and_two_pow_sub_one_eq_mod, BitVec.toNat_ushiftRight,
            Nat.shiftRight_eq_div_pow]
    _ = (index v lsb).toNat := (toNat_index v lsb).symm
    _ = ((index v lsb).setWidth 64).toNat := (BitVec.toNat_setWidth_of_le (by decide)).symm

theorem getLsbD_pageMask : ∀ j : Fin 64,
    (~~~(0xFFF : Word)).getLsbD j = decide (12 ≤ j.val) := by
  decide

/-- `x & ~0xFFF` -/
theorem and_page (e : Word) : e &&& ~~~(0xFFF : Word) = (e >>> 12) <<< 12 := by
  apply BitVec.eq_of_getLsbD_eq
  intro i hi
  have hmask := getLsbD_pageMask ⟨i, hi⟩
  rw [BitVec.getLsbD_and, hmask, BitVec.getLsbD_shiftLeft, BitVec.getLsbD_ushiftRight]
  by_cases hlow : i < 12
  · have hnot : ¬ 12 ≤ i := Nat.not_le.2 hlow
    simp [hlow, hnot]
  · have hback : 12 + (i - 12) = i := by omega
    simp [hlow, hi, hback, Nat.not_lt.1 hlow]

theorem toNat_and_page (e : Word) :
    (e &&& ~~~(0xFFF : Word)).toNat = 4096 * (e.toNat / 2 ^ 12) := by
  have he := e.isLt
  calc
    (e &&& ~~~(0xFFF : Word)).toNat
        = e.toNat / 2 ^ 12 * 2 ^ 12 % 2 ^ 64 := by
          rw [and_page, BitVec.toNat_shiftLeft, BitVec.toNat_ushiftRight,
            Nat.shiftRight_eq_div_pow, Nat.shiftLeft_eq]
    _ = e.toNat / 2 ^ 12 * 2 ^ 12 := Nat.mod_eq_of_lt (by omega)
    _ = 4096 * (e.toNat / 2 ^ 12) := Nat.mul_comm _ _

theorem and_page_add (e : Word) (i : Index) :
    (e &&& ~~~(0xFFF : Word)) + 8 * i.setWidth 64 = address (frameOf e) i := by
  apply BitVec.eq_of_toNat_eq
  have he := e.isLt
  have hi := i.isLt
  have height : (8 : Word).toNat = 8 := rfl
  rw [BitVec.toNat_add, toNat_and_page, BitVec.toNat_mul, height, BitVec.toNat_setWidth,
    toNat_address, toNat_frameOf]
  omega

/-- The index of the word at an address, in its page. -/
def slot (a : Word) : Index := a.extractLsb' 3 9

theorem toNat_slot (a : Word) : (slot a).toNat = a.toNat / 2 ^ 3 % 2 ^ 9 := by
  rw [slot, BitVec.extractLsb'_toNat, Nat.shiftRight_eq_div_pow]

/-- Every word of memory is an entry of a frame. -/
theorem address_frameOf_slot {a : Word} (h : a.toNat % 8 = 0) :
    address (frameOf a) (slot a) = a := by
  apply BitVec.eq_of_toNat_eq
  rw [toNat_address, toNat_frameOf, toNat_slot]
  omega

/-! ## The bits of an entry -/

/-- `!(x & 1)` -/
theorem and_one_eq_zero (e : Word) : e &&& 1 = 0 ↔ ¬ Present e := by
  have hbit : (e &&& 1).toNat = e.toNat % 2 := by
    rw [BitVec.toNat_and]
    exact Nat.and_one_is_mod _
  have hpresent : Present e ↔ e.toNat % 2 = 1 := by
    unfold Present
    rw [BitVec.getLsbD, Nat.testBit_zero]
    exact decide_eq_true_iff
  constructor
  · intro h
    have h0 : (e &&& 1).toNat = 0 := by rw [h]; rfl
    rw [hpresent]
    omega
  · intro h
    apply BitVec.eq_of_toNat_eq
    rw [hpresent] at h
    rw [hbit]
    show e.toNat % 2 = 0
    omega

theorem highClear_iff (e : Word) : HighClear e ↔ e.toNat < 2 ^ 52 := by
  have he := e.isLt
  have hNat : (e.extractLsb' 52 12).toNat = e.toNat / 2 ^ 52 := by
    rw [BitVec.extractLsb'_toNat, Nat.shiftRight_eq_div_pow, Nat.mod_eq_of_lt]
    omega
  constructor
  · intro h
    have h0 : (e.extractLsb' 52 12).toNat = 0 := by rw [h]; rfl
    omega
  · intro h
    apply BitVec.eq_of_toNat_eq
    rw [hNat]
    show e.toNat / 2 ^ 52 = 0
    omega

/-- The processor and `map_page` go on with the same frame exactly when the high bits are clear. -/
theorem frameOf_eq_hwFrame (e : Word) : frameOf e = hwFrame e ↔ HighClear e := by
  rw [highClear_iff]
  have he := e.isLt
  constructor
  · intro h
    have hNat := congrArg BitVec.toNat h
    rw [toNat_frameOf, toNat_hwFrame] at hNat
    omega
  · intro h
    apply BitVec.eq_of_toNat_eq
    rw [toNat_frameOf, toNat_hwFrame]
    omega

/-! ## Entries that `map_page` writes -/

/-- An address with its flags `0x3`. -/
theorem toNat_or_three {w : Word} (hw : w.toNat % 4096 = 0) : (w ||| 3).toNat = w.toNat + 3 := by
  have hdiv : w.toNat = 2 ^ 12 * (w.toNat / 4096) := by omega
  rw [BitVec.toNat_or]
  show w.toNat ||| 3 = w.toNat + 3
  rw [hdiv]
  exact (Nat.two_pow_add_eq_or_of_lt (by decide) _).symm

section

variable {w : Word} (hw : w.toNat % 4096 = 0)

include hw

theorem present_or_three : Present (w ||| 3) := by
  unfold Present
  rw [BitVec.getLsbD, toNat_or_three hw, Nat.testBit_zero]
  exact decide_eq_true (by omega)

theorem writable_or_three : Writable (w ||| 3) := by
  unfold Writable
  rw [BitVec.getLsbD, toNat_or_three hw, Nat.testBit_eq_decide_div_mod_eq]
  exact decide_eq_true (by omega)

theorem not_pageSize_or_three : ¬ PageSize (w ||| 3) := by
  unfold PageSize
  rw [BitVec.getLsbD, toNat_or_three hw, Nat.testBit_eq_decide_div_mod_eq, decide_eq_true_iff]
  omega

theorem frameOf_or_three : frameOf (w ||| 3) = frameOf w := by
  apply BitVec.eq_of_toNat_eq
  rw [toNat_frameOf, toNat_frameOf, toNat_or_three hw]
  omega

theorem highClear_or_three : HighClear (w ||| 3) ↔ HighClear w := by
  rw [highClear_iff, highClear_iff, toNat_or_three hw]
  have hw' := w.isLt
  omega

end

/-! ## Memory as nodes -/

/-- The entries of every frame. -/
def view (s : State) : Frame → Index → Word := fun f i => s.mem (address f i)

variable {k : Platform} {s : State}

/-- Distinct entries lie at distinct addresses, so a store changes one entry. -/
theorem view_update (f : Frame) (i : Index) (w : Word) {s' : State}
    (h : s'.mem = Function.update s.mem (address f i) w) :
    view s' = RadixTree.set (view s) f i w := by
  funext f' i'
  rw [RadixTree.set_apply, view, h]
  by_cases hhere : f' = f ∧ i' = i
  · rw [if_pos hhere, hhere.1, hhere.2, Function.update_self]
  · have hne : address f' i' ≠ address f i := fun hEq => hhere (address_inj.1 hEq)
    rw [if_neg hhere, Function.update_of_ne hne]
    rfl

/-! ## The tables of `pt_scratch` -/

/-- The frame of `pt_scratch[n]`. -/
def scratchFrame (k : Platform) (n : Nat) : Frame := frameOf (v2p k (scratchTable k n))

/-- `pt_scratch[n]` fills a page below `2 ^ 52`. -/
def ScratchPage (k : Platform) (n : Nat) : Prop :=
  v2p k (scratchTable k n) &&& ~~~(0xFFF : Word) = v2p k (scratchTable k n) ∧
    (v2p k (scratchTable k n)).toNat < 2 ^ 52

instance (k : Platform) (n : Nat) : Decidable (ScratchPage k n) :=
  inferInstanceAs (Decidable (_ ∧ _))

theorem v2p_add (t x : Word) : v2p k (t + x) = v2p k t + x := by
  unfold v2p
  calc
    t + x - k.kernelVirtBase + k.kernelPhysBase
        = t + x + -k.kernelVirtBase + k.kernelPhysBase := by rw [BitVec.sub_eq_add_neg]
    _ = t + -k.kernelVirtBase + k.kernelPhysBase + x := by ac_rfl
    _ = t - k.kernelVirtBase + k.kernelPhysBase + x := by rw [← BitVec.sub_eq_add_neg]

/-- An entry of a scratch table, seen through the kernel image. -/
theorem v2p_scratch {n : Nat} (hn : ScratchPage k n) (i : Index) :
    v2p k (scratchTable k n + 8 * i.setWidth 64) = address (scratchFrame k n) i := by
  rw [v2p_add, ← hn.1, and_page_add]
  rfl

theorem view_storeImage {n : Nat} (hn : ScratchPage k n) (i : Index) (w : Word) :
    view (storeImage k (scratchTable k n + 8 * i.setWidth 64) w s) =
      RadixTree.set (view s) (scratchFrame k n) i w := by
  refine view_update (scratchFrame k n) i w ?_
  show Function.update s.mem (v2p k (scratchTable k n + 8 * i.setWidth 64)) w = _
  rw [v2p_scratch hn]

theorem scratchTable_inj {n n' : Nat} (hlt : n < 2 ^ 52) (hlt' : n' < 2 ^ 52)
    (h : scratchTable k n = scratchTable k n') : n = n' := by
  have hmul : (4096 * BitVec.ofNat 64 n : Word) = 4096 * BitVec.ofNat 64 n' :=
    (BitVec.add_right_inj _).1 h
  have hpage : (4096 : Word).toNat = 4096 := rfl
  have hNat := congrArg BitVec.toNat hmul
  rw [BitVec.toNat_mul, BitVec.toNat_mul, hpage, BitVec.toNat_ofNat, BitVec.toNat_ofNat] at hNat
  omega

/-- Two scratch tables are different pages. -/
theorem scratchFrame_inj {n n' : Nat} (hn : ScratchPage k n) (hn' : ScratchPage k n')
    (hlt : n < 2 ^ 52) (hlt' : n' < 2 ^ 52) (h : scratchFrame k n = scratchFrame k n') :
    n = n' := by
  have hphys : v2p k (scratchTable k n) = v2p k (scratchTable k n') := by
    have h0 := v2p_scratch hn 0
    have h0' := v2p_scratch hn' 0
    rw [h, ← h0', v2p_add, v2p_add] at h0
    exact (BitVec.add_left_inj _).1 h0
  unfold scratchTable at hphys
  rw [v2p_add, v2p_add] at hphys
  refine @scratchTable_inj k n n' hlt hlt' ?_
  exact (BitVec.add_right_inj _).2 ((BitVec.add_right_inj _).1 hphys)

/-- A loop counter as an index. -/
theorem ofNat_index {j : Nat} (hj : j < 512) :
    BitVec.ofNat 64 j = (BitVec.ofNat 9 j).setWidth 64 := by
  apply BitVec.eq_of_toNat_eq
  rw [BitVec.toNat_setWidth, BitVec.toNat_ofNat, BitVec.toNat_ofNat]
  omega

/-- The loop of `alloc_table` clears the table. -/
theorem view_zeroTable {n : Nat} (hn : ScratchPage k n) :
    view (zeroTable k (scratchTable k n) s) = RadixTree.clear (view s) (scratchFrame k n) 0 := by
  -- The entries below the counter are cleared, and nothing else has changed.
  have hloop := range_induction 0 512
    (fun i s => storeImage k (scratchTable k n + 8 * BitVec.ofNat 64 i) 0 s) s
    (fun j t => ∀ f i, view t f i =
      if f = scratchFrame k n ∧ i.toNat < j then 0 else view s f i)
    (by decide) (by intro f i; simp) ?_
  · funext f i
    have hi := i.isLt
    rw [zeroTable, hloop]
    by_cases hf : f = scratchFrame k n
    · subst hf
      simp [hi]
    · simp [hf, RadixTree.clear_of_ne]
  · intro j t _ hj hInv f i
    have hj' : (BitVec.ofNat 9 j).toNat = j := Nat.mod_eq_of_lt hj
    have heq : i = BitVec.ofNat 9 j ↔ i.toNat = j := by
      rw [← BitVec.toNat_inj, hj']
    rw [ofNat_index hj, view_storeImage hn, RadixTree.set_apply, hInv]
    by_cases hf : f = scratchFrame k n
    · rcases Nat.lt_trichotomy i.toNat j with hlt | hat | hgt
      · simp [hf, heq, hlt, Nat.lt_succ_of_lt hlt]
      · simp [hf, heq, hat]
      · have hne : i.toNat ≠ j := Nat.ne_of_gt hgt
        have hnlt : ¬ i.toNat < j + 1 := Nat.not_lt.2 hgt
        simp [hf, heq, hne, hnlt, Nat.not_lt_of_gt hgt]
    · simp [hf]

end Paging
end Feudos
