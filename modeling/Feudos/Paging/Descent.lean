import Feudos.Library.Faulting
import Feudos.Paging.Tables

/-!
# The way of `map_page` through the tables

`map_page` goes from one entry to the next: at an upper entry it makes sure that there is a table,
and then follows the bits from 12 up.

- `entryAt`         : the address at which `map_page` reaches an entry;
- `descend`         : the three upper levels, one index each;
- `descend_refused`, `descend_present`, `descend_absent` : what is done at an entry;
- `mapPage_eq`      : a call is the way down from the word that `CR3` leads to, and the leaf;
- `Later`           : what every part does to the counter and to the records.
-/

namespace Feudos
namespace Paging

open CountedLoop Faulting

variable {k : Platform} {s : State} {n n' : Frame} {i j : Index} {q : List Index}

/-! ## Entries and their addresses -/

/-- The address at which `map_page` reaches an entry, through the direct map. -/
def entryAt (k : Platform) (n : Frame) (i : Index) : Word := address n i + k.hhdm

theorem entryAt_sub (k : Platform) (n : Frame) (i : Index) :
    entryAt k n i - k.hhdm = address n i :=
  BitVec.add_sub_cancel _ _

/-- Where `map_page` goes on from an entry `e`. -/
theorem next_entryAt (k : Platform) (e : Word) (j : Index) :
    (e &&& ~~~(0xFFF : Word)) + k.hhdm + 8 * j.setWidth 64 = entryAt k (frameOf e) j := by
  calc
    (e &&& ~~~(0xFFF : Word)) + k.hhdm + 8 * j.setWidth 64
        = (e &&& ~~~(0xFFF : Word)) + 8 * j.setWidth 64 + k.hhdm := by
          rw [BitVec.add_assoc, BitVec.add_comm k.hhdm, BitVec.add_assoc]
    _ = entryAt k (frameOf e) j := by rw [and_page_add, entryAt]

theorem view_writeHhdm (n : Frame) (i : Index) (w : Word) :
    view (writeHhdm k (entryAt k n i) w s) = RadixTree.set (view s) n i w := by
  refine view_update n i w ?_
  show Function.update s.mem (entryAt k n i - k.hhdm) w = _
  rw [entryAt_sub]

/-! ## Loads and stores -/

theorem loadHhdm_of_accepted (h : Accepted k (entryAt k n i)) :
    loadHhdm k (entryAt k n i) s = .ok (view s n i) s := by
  rw [loadHhdm, if_pos h, view, ← entryAt_sub k]
  rfl

theorem loadHhdm_of_refused {vaddr : Word} (h : ¬ Accepted k vaddr) :
    loadHhdm k vaddr s = .error ⟨vaddr⟩ s := by
  rw [loadHhdm, if_neg h]
  rfl

theorem storeHhdm_of_accepted {vaddr : Word} (h : Accepted k vaddr) (w : Word) :
    storeHhdm k vaddr w s = .ok () (writeHhdm k vaddr w s) := by
  rw [storeHhdm, if_pos h]
  rfl

theorem storeHhdm_of_refused {vaddr : Word} (h : ¬ Accepted k vaddr) (w : Word) :
    storeHhdm k vaddr w s = .error ⟨vaddr⟩ s := by
  rw [storeHhdm, if_neg h]
  rfl

/-! ## One level -/

/-- The entry for the next scratch table. -/
def scratchEntry (k : Platform) (n : Nat) : Word := v2p k (scratchTable k n) ||| 3

/-- `alloc_table`. -/
def allocated (k : Platform) (s : State) : State :=
  zeroTable k (scratchTable k s.ptScratchUsed)
    { s with
      ptScratchUsed := s.ptScratchUsed + 1
      handedOut := scratchTable k s.ptScratchUsed :: s.handedOut }

/-- The next scratch table is linked in the entry at `vaddr`. -/
def linkTable (k : Platform) (vaddr : Word) (s : State) : State :=
  writeHhdm k vaddr (scratchEntry k s.ptScratchUsed) (allocated k s)

theorem allocTable_eq (k : Platform) (s : State) :
    allocTable k s = .ok (scratchTable k s.ptScratchUsed) (allocated k s) := rfl

theorem ensureTable_refused {vaddr : Word} (h : ¬ Accepted k vaddr) :
    ensureTable k vaddr s = .error ⟨vaddr⟩ s :=
  bind_of_error (loadHhdm_of_refused h)

theorem ensureTable_present (h : Accepted k (entryAt k n i)) (hpresent : Present (view s n i)) :
    ensureTable k (entryAt k n i) s = .ok () s := by
  have hbit : ¬ view s n i &&& 1 = 0 := fun h0 => (and_one_eq_zero _).1 h0 hpresent
  rw [ensureTable, bind_of_ok (loadHhdm_of_accepted h), if_neg hbit]
  rfl

theorem ensureTable_absent (h : Accepted k (entryAt k n i)) (habsent : ¬ Present (view s n i)) :
    ensureTable k (entryAt k n i) s = .ok () (linkTable k (entryAt k n i) s) := by
  rw [ensureTable, bind_of_ok (loadHhdm_of_accepted h), if_pos ((and_one_eq_zero _).2 habsent),
    bind_of_ok (allocTable_eq k s), storeHhdm_of_accepted h]
  rfl

theorem nextTable_of_accepted (h : Accepted k (entryAt k n i)) :
    nextTable k k.hhdm (entryAt k n i) s =
      .ok ((view s n i &&& ~~~(0xFFF : Word)) + k.hhdm) s := by
  rw [nextTable, bind_of_ok (loadHhdm_of_accepted h)]
  rfl

/-- The entry holds the table that was linked in it. -/
theorem view_linkTable_self (k : Platform) (s : State) (n : Frame) (i : Index) :
    view (linkTable k (entryAt k n i) s) n i = scratchEntry k s.ptScratchUsed := by
  rw [linkTable, view_writeHhdm, RadixTree.set_apply, if_pos ⟨rfl, rfl⟩]

/-! ## The upper levels -/

/-- The upper levels of `map_page` from the entry at `vaddr` on, with the indices of the levels
below; the result is the address of the last entry. -/
def descend (k : Platform) : Word → List Index → MapM Word
  | vaddr, [] => return vaddr
  | vaddr, i :: q => do
      ensureTable k vaddr
      let t ← nextTable k k.hhdm vaddr
      descend k (t + 8 * i.setWidth 64) q

theorem descend_refused {vaddr : Word} (h : ¬ Accepted k vaddr) :
    descend k vaddr (j :: q) s = .error ⟨vaddr⟩ s :=
  bind_of_error (ensureTable_refused h)

theorem descend_present (h : Accepted k (entryAt k n i)) (hpresent : Present (view s n i)) :
    descend k (entryAt k n i) (j :: q) s = descend k (entryAt k (frameOf (view s n i)) j) q s := by
  rw [descend, bind_of_ok (ensureTable_present h hpresent), bind_of_ok (nextTable_of_accepted h),
    next_entryAt]

theorem descend_absent (h : Accepted k (entryAt k n i)) (habsent : ¬ Present (view s n i)) :
    descend k (entryAt k n i) (j :: q) s =
      descend k (entryAt k (frameOf (scratchEntry k s.ptScratchUsed)) j) q
        (linkTable k (entryAt k n i) s) := by
  rw [descend, bind_of_ok (ensureTable_absent h habsent), bind_of_ok (nextTable_of_accepted h),
    next_entryAt, view_linkTable_self]

/-! ## One call -/

/-- The leaf that `map_page` writes. -/
def pageEntry (phys : Word) : Word := (phys &&& ~~~(0xFFF : Word)) ||| 3

/-- The word of physical memory that `map_page` takes for the entry of the first level: the flags
in `CR3` are not masked. -/
def rootWord (k : Platform) (v : Word) : Word := k.cr3 + 8 * (index v 39).setWidth 64

def rootFrame (k : Platform) (v : Word) : Frame := frameOf (rootWord k v)

def rootIndex (k : Platform) (v : Word) : Index := slot (rootWord k v)

/-- The indices below the first level. -/
def lowerIndices (v : Word) : List Index := [index v 30, index v 21, index v 12]

theorem rootWord_toNat (k : Platform) (v : Word) :
    (rootWord k v).toNat = k.cr3.toNat + 8 * (index v 39).toNat := by
  have hcr3 := k.cr3_bound
  have hi := (index v 39).isLt
  have height : (8 : Word).toNat = 8 := rfl
  rw [rootWord, BitVec.toNat_add, BitVec.toNat_mul, height, BitVec.toNat_setWidth]
  omega

theorem entryAt_root (k : Platform) (v : Word) :
    entryAt k (rootFrame k v) (rootIndex k v) =
      k.cr3 + k.hhdm + 8 * (index v 39).setWidth 64 := by
  have hword : (rootWord k v).toNat % 8 = 0 := by
    have hcr3 := k.cr3_word
    rw [rootWord_toNat]
    omega
  calc
    entryAt k (rootFrame k v) (rootIndex k v)
        = rootWord k v + k.hhdm := by rw [entryAt, rootFrame, rootIndex, address_frameOf_slot hword]
    _ = k.cr3 + k.hhdm + 8 * (index v 39).setWidth 64 := by
          rw [rootWord, BitVec.add_assoc, BitVec.add_assoc, BitVec.add_comm k.hhdm]

/-- Without flags in `CR3` it is the entry of the first level. -/
theorem root_of_page (hcr3 : k.cr3 &&& 0xFFF = 0) (v : Word) :
    rootFrame k v = hwFrame k.cr3 ∧ rootIndex k v = index v 39 := by
  have hcr3' := k.cr3_bound
  have hi := (index v 39).isLt
  have hmask : (0xFFF : Word).toNat = 2 ^ 12 - 1 := rfl
  have hlow : k.cr3.toNat % 2 ^ 12 = 0 := by
    have hNat := congrArg BitVec.toNat hcr3
    rw [BitVec.toNat_and, hmask, Nat.and_two_pow_sub_one_eq_mod] at hNat
    exact hNat
  constructor
  · apply BitVec.eq_of_toNat_eq
    rw [rootFrame, toNat_frameOf, rootWord_toNat, toNat_hwFrame]
    omega
  · apply BitVec.eq_of_toNat_eq
    rw [rootIndex, toNat_slot, rootWord_toNat]
    omega

/-- A call: the way down, and the store of the leaf. -/
theorem mapPage_eq (k : Platform) (virt phys : Word) :
    mapPage k virt phys k.hhdm =
      descend k (entryAt k (rootFrame k virt) (rootIndex k virt)) (lowerIndices virt) >>=
        fun vaddr => storeHhdm k vaddr (pageEntry phys) := by
  rw [entryAt_root]
  simp only [mapPage, and_index, lowerIndices, descend, bind_assoc, pure_bind]
  rfl

/-! ## The counter and the records -/

/-- The tables of `pt_scratch` from `lo` on, up to `hi`. -/
def scratchTables (k : Platform) (lo hi : Nat) : List Word :=
  (List.range' lo (hi - lo)).map (scratchTable k)

theorem scratchTables_append {lo mid hi : Nat} (hlo : lo ≤ mid) (hhi : mid ≤ hi) :
    scratchTables k lo mid ++ scratchTables k mid hi = scratchTables k lo hi := by
  have hsum : mid - lo + (hi - mid) = hi - lo := by omega
  have hjoin := @List.range'_append lo (mid - lo) (hi - mid) 1
  rw [Nat.one_mul, Nat.add_sub_of_le hlo, hsum] at hjoin
  rw [scratchTables, scratchTables, ← List.map_append, hjoin]
  rfl

/-- What every part of `map_page` does to the counter and the records: tables are handed out one
after the other, the stores before stay recorded, and the words stored to through the kernel image
are in the tables handed out. -/
structure Later (k : Platform) (s s' : State) : Prop where
  used : s.ptScratchUsed ≤ s'.ptScratchUsed
  handed : s'.handedOut =
    (scratchTables k s.ptScratchUsed s'.ptScratchUsed).reverse ++ s.handedOut
  kept : ∀ st ∈ s.stores, st ∈ s'.stores
  images : ∀ vaddr, .image vaddr ∈ s'.stores → .image vaddr ∈ s.stores ∨
    ∃ (n : Nat) (i : Index), s.ptScratchUsed ≤ n ∧ n < s'.ptScratchUsed ∧
      vaddr = scratchTable k n + 8 * i.setWidth 64

instance later_refl (k : Platform) : Std.Refl (Later k) where
  refl s :=
    { used := Nat.le_refl _
      handed := by simp [scratchTables]
      kept := fun _ hst => hst
      images := fun _ himage => Or.inl himage }

instance later_trans (k : Platform) : IsTrans State (Later k) where
  trans s₁ s₂ s₃ h h' :=
    { used := Nat.le_trans h.used h'.used
      handed := by
        rw [h'.handed, h.handed, ← scratchTables_append h.used h'.used, List.reverse_append,
          List.append_assoc]
      kept := fun st hst => h'.kept st (h.kept st hst)
      images := by
        have hused := h.used
        have hused' := h'.used
        intro vaddr himage
        rcases h'.images vaddr himage with hbefore | ⟨n, i, hlo, hhi, hEq⟩
        · rcases h.images vaddr hbefore with hold | ⟨n, i, hlo, hhi, hEq⟩
          · exact Or.inl hold
          · exact Or.inr ⟨n, i, hlo, by omega, hEq⟩
        · exact Or.inr ⟨n, i, by omega, hhi, hEq⟩ }

theorem writeHhdm_used (vaddr w : Word) (s : State) :
    (writeHhdm k vaddr w s).ptScratchUsed = s.ptScratchUsed := rfl

theorem later_writeHhdm (k : Platform) (vaddr w : Word) (s : State) :
    Later k s (writeHhdm k vaddr w s) where
  used := Nat.le_refl _
  handed := by simp [scratchTables, writeHhdm]
  kept := fun _ hst => List.mem_cons_of_mem _ hst
  images := by
    intro v himage
    rcases List.mem_cons.1 himage with hEq | hold
    · cases hEq
    · exact Or.inl hold

/-- The loop of `alloc_table` touches nothing but memory and the record of stores. -/
theorem zeroTable_frame (t : Word) (s : State) :
    (zeroTable k t s).ptScratchUsed = s.ptScratchUsed ∧
      (zeroTable k t s).handedOut = s.handedOut :=
  ⟨range_frame State.ptScratchUsed (fun _ _ _ _ => rfl),
    range_frame State.handedOut (fun _ _ _ _ => rfl)⟩

theorem mem_stores_zeroTable {t : Word} {st : Store} :
    st ∈ (zeroTable k t s).stores →
      st ∈ s.stores ∨ ∃ j : Index, st = .image (t + 8 * j.setWidth 64) := by
  refine range_invariant
    (fun s' : State => st ∈ s'.stores →
      st ∈ s.stores ∨ ∃ j : Index, st = .image (t + 8 * j.setWidth 64)) Or.inl ?_
  intro j s' _ hj ih hst
  rcases List.mem_cons.1 hst with rfl | hst
  · exact Or.inr ⟨BitVec.ofNat 9 j, by rw [ofNat_index hj]⟩
  · exact ih hst

theorem allocated_used (k : Platform) (s : State) :
    (allocated k s).ptScratchUsed = s.ptScratchUsed + 1 :=
  (zeroTable_frame _ _).1

theorem linkTable_used (k : Platform) (vaddr : Word) (s : State) :
    (linkTable k vaddr s).ptScratchUsed = s.ptScratchUsed + 1 :=
  (writeHhdm_used vaddr _ _).trans (allocated_used k s)

theorem later_allocated (k : Platform) (s : State) : Later k s (allocated k s) where
  used := by
    rw [allocated_used]
    exact Nat.le_succ _
  handed := by
    rw [allocated_used, allocated, (zeroTable_frame _ _).2]
    simp [scratchTables]
  kept := fun st hst => range_invariant (fun s' : State => st ∈ s'.stores) hst
    (fun _ _ _ _ hmem => List.mem_cons_of_mem _ hmem)
  images := by
    intro vaddr himage
    rcases mem_stores_zeroTable himage with hold | ⟨i, hnew⟩
    · exact Or.inl hold
    · refine Or.inr ⟨s.ptScratchUsed, i, Nat.le_refl _, ?_, Store.image.inj hnew⟩
      rw [allocated_used]
      exact Nat.lt_succ_self _

theorem moves_loadHhdm (k : Platform) (vaddr : Word) : Moves (Later k) (loadHhdm k vaddr) := by
  unfold loadHhdm
  split
  · exact fun s => refl_of (Later k) s
  · exact Moves.throw _

theorem moves_storeHhdm (k : Platform) (vaddr w : Word) :
    Moves (Later k) (storeHhdm k vaddr w) := by
  unfold storeHhdm
  split
  · exact Moves.modify (later_writeHhdm k vaddr w)
  · exact Moves.throw _

theorem moves_ensureTable (k : Platform) (vaddr : Word) :
    Moves (Later k) (ensureTable k vaddr) := by
  refine (moves_loadHhdm k vaddr).bind (fun e => ?_)
  split
  · exact Moves.bind (later_allocated k) (fun t => moves_storeHhdm k vaddr _)
  · exact Moves.pure ()

theorem moves_nextTable (k : Platform) (vaddr : Word) :
    Moves (Later k) (nextTable k k.hhdm vaddr) :=
  (moves_loadHhdm k vaddr).bind (fun _ => Moves.pure _)

theorem moves_descend (k : Platform) (vaddr : Word) (q : List Index) :
    Moves (Later k) (descend k vaddr q) := by
  induction q generalizing vaddr with
  | nil =>
      exact Moves.pure vaddr
  | cons i q ih =>
      exact (moves_ensureTable k vaddr).bind
        (fun _ => (moves_nextTable k vaddr).bind (fun t => ih (t + 8 * i.setWidth 64)))

theorem moves_mapPage (k : Platform) (virt phys : Word) :
    Moves (Later k) (mapPage k virt phys k.hhdm) := by
  rw [mapPage_eq]
  exact (moves_descend k _ _).bind (fun vaddr => moves_storeHhdm k vaddr _)

/-- A level hands out at most one table. -/
theorem descend_used_le (k : Platform) (s : State) (n : Frame) (i : Index) (q : List Index) :
    (ended (descend k (entryAt k n i) q s)).ptScratchUsed ≤ s.ptScratchUsed + q.length := by
  induction q generalizing n i s with
  | nil =>
      exact Nat.le_refl _
  | cons j q ih =>
      rw [List.length_cons]
      by_cases haccepted : Accepted k (entryAt k n i)
      · by_cases hpresent : Present (view s n i)
        · rw [descend_present haccepted hpresent]
          exact Nat.le_trans (ih s _ j) (by omega)
        · have hrest := ih (linkTable k (entryAt k n i) s)
            (frameOf (scratchEntry k s.ptScratchUsed)) j
          rw [linkTable_used] at hrest
          rw [descend_absent haccepted hpresent]
          omega
      · rw [descend_refused haccepted]
        exact Nat.le_add_right _ _

/-- The leaf takes no table. -/
theorem mapPage_used (k : Platform) (virt phys : Word) (s : State) :
    (ended (mapPage k virt phys k.hhdm s)).ptScratchUsed =
      (ended (descend k (entryAt k (rootFrame k virt) (rootIndex k virt)) (lowerIndices virt)
        s)).ptScratchUsed := by
  rw [mapPage_eq]
  cases h : descend k (entryAt k (rootFrame k virt) (rootIndex k virt)) (lowerIndices virt) s with
  | ok vaddr s' =>
      rw [bind_of_ok h]
      by_cases haccepted : Accepted k vaddr
      · rw [storeHhdm_of_accepted haccepted]
        rfl
      · rw [storeHhdm_of_refused haccepted]
        rfl
  | error e s' =>
      rw [bind_of_error h]
      rfl

/-- A call hands out at most three tables. -/
theorem mapPage_used_le_add (k : Platform) (virt phys : Word) (s : State) :
    (ended (mapPage k virt phys k.hhdm s)).ptScratchUsed ≤ s.ptScratchUsed + 3 := by
  rw [mapPage_used]
  exact descend_used_le k s _ _ _

/-! ## Any number of calls -/

/-- One more call, unless an access was refused before. -/
def nextCall (k : Platform) (r : EStateM.Result Fault State Unit) (call : Word × Word) :
    EStateM.Result Fault State Unit :=
  match r with
  | .ok _ s => mapPage k call.1 call.2 k.hhdm s
  | .error e s => .error e s

/-- Calls of `map_page`, each with its virtual and its physical address. -/
def mapPages (k : Platform) (calls : List (Word × Word)) (s : State) :
    EStateM.Result Fault State Unit :=
  calls.foldl (nextCall k) (.ok () s)

theorem mapPages_singleton (k : Platform) (virt phys : Word) (s : State) :
    mapPages k [(virt, phys)] s = mapPage k virt phys k.hhdm s := rfl

theorem later_nextCall (k : Platform) (r : EStateM.Result Fault State Unit)
    (call : Word × Word) : Later k (ended r) (ended (nextCall k r call)) := by
  cases r with
  | ok u s =>
      exact moves_mapPage k call.1 call.2 s
  | error e s =>
      exact refl_of (Later k) s

theorem later_calls (k : Platform) (r : EStateM.Result Fault State Unit)
    (calls : List (Word × Word)) : Later k (ended r) (ended (calls.foldl (nextCall k) r)) := by
  induction calls generalizing r with
  | nil =>
      exact refl_of (Later k) (ended r)
  | cons call calls ih =>
      exact trans_of (Later k) (later_nextCall k r call) (ih (nextCall k r call))

end Paging
end Feudos
