import Feudos.Paging.Tables

/-!
# The walk of the processor

What the page tables mean: the four-level walk of the processor for a virtual address.

- `hwWalk`       : the leaf entry and the physical address, with leaves of 1 GB, 2 MB and 4 KB;
- `Hierarchy`    : the tables of a memory form a tree, and no entry that leads to a table uses
  bit 7 or bits 52 to 63;
- `hwWalk_eq`    : in such a hierarchy the walk is a lookup in a radix tree;
- `path_inj`     : two canonical addresses with the same indices are in the same page.
-/

namespace Feudos
namespace Paging

open RadixTree

/-! ## Virtual addresses -/

/-- Two addresses in one page of 4 KB. -/
def SamePage (v w : Word) : Prop := v >>> 12 = w >>> 12

instance (v w : Word) : Decidable (SamePage v w) := inferInstanceAs (Decidable (_ = _))

/-- The indices that lead to the page table of an address. -/
def path (v : Word) : List Index := [index v 39, index v 30, index v 21]

theorem canonical_iff (v : Word) :
    Canonical v ↔ v.toNat / 2 ^ 47 = 0 ∨ v.toNat / 2 ^ 47 = 2 ^ 17 - 1 := by
  have hv := v.isLt
  have hNat : (v.extractLsb' 47 17).toNat = v.toNat / 2 ^ 47 := by
    rw [BitVec.extractLsb'_toNat, Nat.shiftRight_eq_div_pow, Nat.mod_eq_of_lt]
    omega
  unfold Canonical
  rw [← BitVec.toNat_inj, ← BitVec.toNat_inj, hNat]
  rfl

theorem samePage_iff (v w : Word) : SamePage v w ↔ v.toNat / 2 ^ 12 = w.toNat / 2 ^ 12 := by
  unfold SamePage
  rw [← BitVec.toNat_inj, BitVec.toNat_ushiftRight, BitVec.toNat_ushiftRight,
    Nat.shiftRight_eq_div_pow, Nat.shiftRight_eq_div_pow]

theorem SamePage.canonical {v w : Word} (h : SamePage v w) (hw : Canonical w) : Canonical v := by
  rw [samePage_iff] at h
  rw [canonical_iff] at hw ⊢
  omega

/-- Two numbers agree from bit `k` up when they agree in the nine bits there and above them. -/
theorem div_eq_iff (n m k : Nat) :
    n / 2 ^ k = m / 2 ^ k ↔
      n / 2 ^ k % 2 ^ 9 = m / 2 ^ k % 2 ^ 9 ∧ n / 2 ^ (k + 9) = m / 2 ^ (k + 9) := by
  rw [Nat.pow_add, ← Nat.div_div_eq_div_mul, ← Nat.div_div_eq_div_mul]
  omega

/-- The bits of a canonical address above its upper index repeat the highest bit of that index. -/
theorem high_of_index {v w : Word} (hv : Canonical v) (hw : Canonical w)
    (h : v.toNat / 2 ^ 39 % 2 ^ 9 = w.toNat / 2 ^ 39 % 2 ^ 9) :
    v.toNat / 2 ^ 48 = w.toNat / 2 ^ 48 := by
  rw [canonical_iff] at hv hw
  omega

/-- The four indices of a canonical address determine its page. -/
theorem path_inj {v w : Word} (hv : Canonical v) (hw : Canonical w) :
    path v = path w ∧ index v 12 = index w 12 ↔ SamePage v w := by
  have hindex : ∀ lsb, index v lsb = index w lsb ↔
      v.toNat / 2 ^ lsb % 2 ^ 9 = w.toNat / 2 ^ lsb % 2 ^ 9 := by
    intro lsb
    rw [← BitVec.toNat_inj, toNat_index, toNat_index]
  simp only [path, List.cons.injEq, hindex, and_true]
  rw [samePage_iff, div_eq_iff, div_eq_iff _ _ 21, div_eq_iff _ _ 30, div_eq_iff _ _ 39]
  constructor
  · rintro ⟨⟨h39, h30, h21⟩, h12⟩
    exact ⟨h12, h21, h30, h39, high_of_index hv hw h39⟩
  · rintro ⟨h12, h21, h30, h39, -⟩
    exact ⟨⟨h39, h30, h21⟩, h12⟩

/-! ## The walk -/

/-- A leaf entry, and the physical address it gives. -/
structure Mapping where
  leaf : Word
  phys : Word
deriving DecidableEq, Repr

/-- The address field of a leaf from bit `lsb` up, and the offset below. -/
def leafAddress (lsb : Nat) (e v : Word) : Word :=
  BitVec.ofNat 64 (e.toNat % 2 ^ 52 / 2 ^ lsb * 2 ^ lsb + v.toNat % 2 ^ lsb)

/-- The 4 KB page that a leaf gives. -/
def pageMapping (v e : Word) : Mapping := ⟨e, leafAddress 12 e v⟩

/-- The walk of an address, from the table in `CR3`. -/
def hwWalk (k : Platform) (m : Frame → Index → Word) (v : Word) : Option Mapping :=
  if ¬ Canonical v then
    none
  else
    (hwNext (m (hwFrame k.cr3) (index v 39))).bind fun pdpt =>
      let pdpte := m pdpt (index v 30)
      if Present pdpte ∧ PageSize pdpte then
        some ⟨pdpte, leafAddress 30 pdpte v⟩
      else
        (hwNext pdpte).bind fun pd =>
          let pde := m pd (index v 21)
          if Present pde ∧ PageSize pde then
            some ⟨pde, leafAddress 21 pde v⟩
          else
            (hwNext pde).bind fun pt =>
              (hwLeaf (m pt (index v 12))).map (pageMapping v)

/-! ## Hierarchies without large pages -/

/-- What the bootloader promises of the tables: they form a tree, and the present entries of the
three upper levels have the page-size bit and bits 52 to 63 clear. -/
structure Hierarchy (k : Platform) (m : Frame → Index → Word) : Prop where
  tree : Tree hwNext m (hwFrame k.cr3) 3
  clean : ∀ (p : List Index) (n : Frame) (i : Index), p.length < 3 →
    follow hwNext m (hwFrame k.cr3) p = some n → Present (m n i) →
      ¬ PageSize (m n i) ∧ HighClear (m n i)

theorem hwNext_of_table {e : Word} (hpresent : Present e) (hps : ¬ PageSize e) :
    hwNext e = some (hwFrame e) :=
  if_pos ⟨hpresent, hps⟩

theorem hwNext_of_absent {e : Word} (habsent : ¬ Present e) : hwNext e = none :=
  if_neg (fun h => habsent h.1)

/-- Without large pages the walk of a canonical address is a lookup. -/
theorem hwWalk_eq {k : Platform} {m : Frame → Index → Word} (h : Hierarchy k m) {v : Word}
    (hv : Canonical v) :
    hwWalk k m v =
      (find hwNext hwLeaf m (hwFrame k.cr3) (path v) (index v 12)).map (pageMapping v) := by
  unfold hwWalk
  rw [if_neg (not_not_intro hv)]
  simp only [find, path, follow]
  cases h4 : hwNext (m (hwFrame k.cr3) (index v 39)) with
  | none =>
      rfl
  | some pdpt =>
      have hpdpt : follow hwNext m (hwFrame k.cr3) [index v 39] = some pdpt := by
        simp [follow, h4]
      have hsmall : ¬ (Present (m pdpt (index v 30)) ∧ PageSize (m pdpt (index v 30))) :=
        fun hlarge => (h.clean _ _ _ (by simp) hpdpt hlarge.1).1 hlarge.2
      simp only [Option.bind_some, if_neg hsmall]
      cases h3 : hwNext (m pdpt (index v 30)) with
      | none =>
          rfl
      | some pd =>
          have hpd : follow hwNext m (hwFrame k.cr3) [index v 39, index v 30] = some pd := by
            simp [follow, h4, h3]
          have hsmall : ¬ (Present (m pd (index v 21)) ∧ PageSize (m pd (index v 21))) :=
            fun hlarge => (h.clean _ _ _ (by simp) hpd hlarge.1).1 hlarge.2
          simp only [Option.bind_some, if_neg hsmall]
          cases hwNext (m pd (index v 21)) with
          | none =>
              rfl
          | some pt =>
              rfl

theorem hwWalk_of_not_canonical {k : Platform} {m : Frame → Index → Word} {v : Word}
    (hv : ¬ Canonical v) : hwWalk k m v = none :=
  if_pos hv

end Paging
end Feudos
