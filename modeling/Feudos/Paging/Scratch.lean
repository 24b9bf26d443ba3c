import Feudos.Paging.Safety

/-!
# The scratch tables (`pt_scratch`)

`pt_scratch` has four tables, and `alloc_table` counts the ones it hands out without looking at the
number.  A call needs a table for every level from the first missing entry on.

- `ScratchOnly`       : `alloc_table` hands out and clears tables of `pt_scratch` only;
- `neededTables`      : how many tables a call needs, read off the memory before it;
- `mapPage_used_le`   : it takes no more, whatever the memory holds;
- `mapPage_over`      : and no less, if `pt_scratch` is not in use already;
- `scratch_only_iff`  : nothing but `pt_scratch` is handed out and cleared exactly when every call
  fits;
- `scratch_only_tree_iff` : in a tree, the paths that lead nowhere tell at the start.
-/

namespace Feudos
namespace Paging

open CountedLoop Faulting GuardedRun RadixTree

variable {k : Platform} {s : State} {n : Frame} {i j : Index} {p q : List Index}

/-! ## Nothing but `pt_scratch` -/

/-- In a sequence of calls, `alloc_table` hands out the four tables of `pt_scratch` only, none of
them twice, and clears no word outside them. -/
structure ScratchOnly (k : Platform) (calls : List (Word × Word)) (s : State) : Prop where
  tables : ∀ t ∈ (ended (mapPages k calls (freshRecord s))).handedOut,
    ∃ n, n < 4 ∧ t = scratchTable k n
  once : (ended (mapPages k calls (freshRecord s))).handedOut.Nodup
  cleared : ∀ vaddr, .image vaddr ∈ (ended (mapPages k calls (freshRecord s))).stores →
    ∃ (n : Nat) (i : Index), n < 4 ∧ vaddr = scratchTable k n + 8 * i.setWidth 64

theorem mem_scratchTables {t : Word} {lo hi : Nat} :
    t ∈ scratchTables k lo hi ↔ ∃ n, (lo ≤ n ∧ n < hi) ∧ t = scratchTable k n := by
  rw [scratchTables, List.mem_map]
  constructor
  · rintro ⟨n, hn, rfl⟩
    rw [List.mem_range'_1] at hn
    exact ⟨n, by omega, rfl⟩
  · rintro ⟨n, hn, rfl⟩
    exact ⟨n, List.mem_range'_1.2 (by omega), rfl⟩

theorem scratchTables_nodup {lo hi : Nat} (hhi : hi ≤ 4) : (scratchTables k lo hi).Nodup := by
  refine List.Nodup.map_on (fun n hn n' hn' hEq => ?_) List.nodup_range'
  rw [List.mem_range'_1] at hn hn'
  exact scratchTable_inj (by omega) (by omega) hEq

/-- A fifth table is behind the array. -/
theorem scratchTable_four {m : Nat} (hm : m < 4) : scratchTable k 4 ≠ scratchTable k m := by
  intro hEq
  have hsame := scratchTable_inj (by decide) (by omega) hEq
  omega

/-- The tables handed out are numbered by the counter. -/
theorem handedOut_eq (k : Platform) (calls : List (Word × Word)) (s : State) :
    (ended (mapPages k calls (freshRecord s))).handedOut =
      (scratchTables k s.ptScratchUsed
        (ended (mapPages k calls (freshRecord s))).ptScratchUsed).reverse := by
  have hhanded := (later_calls k (.ok () (freshRecord s)) calls).handed
  exact hhanded.trans (List.append_nil _)

theorem scratchOnly_of_used_le {calls : List (Word × Word)}
    (hused : (ended (mapPages k calls (freshRecord s))).ptScratchUsed ≤ 4) :
    ScratchOnly k calls s where
  tables := by
    intro t ht
    rw [handedOut_eq, List.mem_reverse] at ht
    rcases mem_scratchTables.1 ht with ⟨n, hn, hEq⟩
    exact ⟨n, by omega, hEq⟩
  once := by
    rw [handedOut_eq, List.nodup_reverse]
    exact scratchTables_nodup hused
  cleared := by
    intro vaddr hmem
    rcases (later_calls k (.ok () (freshRecord s)) calls).images vaddr hmem with
      hold | ⟨n, i, -, hn, hEq⟩
    · exact absurd hold List.not_mem_nil
    · exact ⟨n, i, Nat.lt_of_lt_of_le hn hused, hEq⟩

/-- If the counter passes 4, the fifth table was handed out. -/
theorem used_le_of_scratchOnly {calls : List (Word × Word)} (hstart : s.ptScratchUsed ≤ 4)
    (h : ScratchOnly k calls s) :
    (ended (mapPages k calls (freshRecord s))).ptScratchUsed ≤ 4 := by
  by_contra hover
  have hfifth : scratchTable k 4 ∈ (ended (mapPages k calls (freshRecord s))).handedOut := by
    rw [handedOut_eq, List.mem_reverse]
    exact mem_scratchTables.2 ⟨4, ⟨hstart, Nat.lt_of_not_le hover⟩, rfl⟩
  rcases h.tables _ hfifth with ⟨m, hm, hEq⟩
  exact scratchTable_four hm hEq

/-! ## What one call needs -/

/-- The levels without a table, from the entry `i` of the frame `n` on: all of them from the first
missing entry on, and none if an access before it is refused. -/
def missingLevels (k : Platform) (m : Frame → Index → Word) : Frame → Index → List Index → Nat
  | _, _, [] => 0
  | n, i, j :: q =>
      if Accepted k (entryAt k n i) then
        if Present (m n i) then missingLevels k m (frameOf (m n i)) j q else q.length + 1
      else
        0

/-- The tables that a call needs in the state before it. -/
def neededTables (k : Platform) (s : State) (v : Word) : Nat :=
  missingLevels k (view s) (rootFrame k v) (rootIndex k v) (lowerIndices v)

/-- The frame with the first missing entry. -/
def missingAt (k : Platform) (m : Frame → Index → Word) :
    Frame → Index → List Index → Option Frame
  | _, _, [] => none
  | n, i, j :: q =>
      if Accepted k (entryAt k n i) then
        if Present (m n i) then missingAt k m (frameOf (m n i)) j q else some n
      else
        none

theorem descend_used_le_missing (k : Platform) (s : State) (n : Frame) (i : Index)
    (q : List Index) :
    (ended (descend k (entryAt k n i) q s)).ptScratchUsed ≤
      s.ptScratchUsed + missingLevels k (view s) n i q := by
  induction q generalizing n i with
  | nil =>
      exact Nat.le_refl _
  | cons j q ih =>
      rw [missingLevels]
      by_cases haccepted : Accepted k (entryAt k n i)
      · rw [if_pos haccepted]
        by_cases hpresent : Present (view s n i)
        · rw [if_pos hpresent, descend_present haccepted hpresent]
          exact ih _ j
        · -- From here on every level is counted, so one table for each is enough.
          have hrest := descend_used_le k (linkTable k (entryAt k n i) s)
            (frameOf (scratchEntry k s.ptScratchUsed)) j q
          rw [linkTable_used] at hrest
          rw [if_neg hpresent, descend_absent haccepted hpresent]
          omega
      · rw [if_neg haccepted, descend_refused haccepted]
        exact Nat.le_refl _

/-- A call takes no more tables than it needs. -/
theorem mapPage_used_le (k : Platform) (virt phys : Word) (s : State) :
    (ended (mapPage k virt phys k.hhdm s)).ptScratchUsed ≤
      s.ptScratchUsed + neededTables k s virt := by
  rw [mapPage_used]
  exact descend_used_le_missing k s _ _ _

/-- The tables of `pt_scratch` that are left are pages of the direct map, and the first missing
entry is not in one of them. -/
structure Unused (k : Platform) (s : State) (at? : Option Frame) : Prop where
  page : ∀ m, s.ptScratchUsed ≤ m → m < 4 → ScratchPage k m
  shown : ∀ m, s.ptScratchUsed ≤ m → m < 4 → Shown k (scratchFrame k m)
  apart : ∀ m, s.ptScratchUsed ≤ m → m < 4 → at? ≠ some (scratchFrame k m)

/-- From a missing entry on, the tables of `pt_scratch` are used up one by one. -/
theorem descend_over_absent (h : Unused k s (some n)) (haccepted : Accepted k (entryAt k n i))
    (habsent : ¬ Present (view s n i)) (hover : 4 < s.ptScratchUsed + (q.length + 1)) :
    4 < (ended (descend k (entryAt k n i) (j :: q) s)).ptScratchUsed := by
  induction q generalizing n i j s with
  | nil =>
      have hlater := (moves_descend k (entryAt k (frameOf (scratchEntry k s.ptScratchUsed)) j) []
        (linkTable k (entryAt k n i) s)).used
      rw [linkTable_used] at hlater
      rw [descend_absent haccepted habsent]
      exact Nat.lt_of_lt_of_le hover hlater
  | cons j' q ih =>
      rw [descend_absent haccepted habsent]
      have hused := linkTable_used k (entryAt k n i) s
      by_cases hleft : s.ptScratchUsed < 4
      · have hpage := h.page _ (Nat.le_refl _) hleft
        have hapart : scratchFrame k s.ptScratchUsed ≠ n :=
          fun hEq => h.apart _ (Nat.le_refl _) hleft (congrArg some hEq.symm)
        rw [frameOf_scratchEntry hpage]
        refine ih ⟨?_, ?_, ?_⟩ (h.shown _ (Nat.le_refl _) hleft j) ?_ ?_
        · exact fun m hm hm4 => h.page m (by omega) hm4
        · exact fun m hm hm4 => h.shown m (by omega) hm4
        · intro m hm hm4 hEq
          have hsame := scratchFrame_inj hpage (h.page m (by omega) hm4) (by omega) (by omega)
            (Option.some.inj hEq)
          omega
        · -- The table that was just linked is empty.
          rw [view_linkTable hpage, link_apply, if_neg (fun hboth => hapart hboth.1), if_pos rfl]
          exact absent_zero
        · rw [hused]
          rw [List.length_cons] at hover
          omega
      · -- The array is used up: this very table is behind it.
        have hlater := (moves_descend k (entryAt k (frameOf (scratchEntry k s.ptScratchUsed)) j)
          (j' :: q) (linkTable k (entryAt k n i) s)).used
        omega

theorem descend_over (h : Unused k s (missingAt k (view s) n i q))
    (hstart : s.ptScratchUsed ≤ 4)
    (hover : 4 < s.ptScratchUsed + missingLevels k (view s) n i q) :
    4 < (ended (descend k (entryAt k n i) q s)).ptScratchUsed := by
  induction q generalizing n i with
  | nil =>
      exact absurd hstart (Nat.not_le.2 hover)
  | cons j q ih =>
      rw [missingLevels] at hover
      rw [missingAt] at h
      by_cases haccepted : Accepted k (entryAt k n i)
      · rw [if_pos haccepted] at hover h
        by_cases hpresent : Present (view s n i)
        · rw [if_pos hpresent] at hover h
          rw [descend_present haccepted hpresent]
          exact ih h hover
        · rw [if_neg hpresent] at hover h
          exact descend_over_absent h haccepted hpresent hover
      · rw [if_neg haccepted] at hover
        omega

/-- A call that needs more tables than are left goes past the end of `pt_scratch`. -/
theorem mapPage_over {virt : Word}
    (h : Unused k s (missingAt k (view s) (rootFrame k virt) (rootIndex k virt)
      (lowerIndices virt))) (hstart : s.ptScratchUsed ≤ 4)
    (hover : 4 < s.ptScratchUsed + neededTables k s virt) (phys : Word) :
    4 < (ended (mapPage k virt phys k.hhdm s)).ptScratchUsed := by
  rw [mapPage_used]
  exact descend_over h hstart hover

/-! ## Any number of calls -/

/-- The tables that the call needs are left. -/
def Fits (k : Platform) (r : EStateM.Result Fault State Unit) (call : Word × Word) : Prop :=
  match r with
  | .ok _ s => s.ptScratchUsed + neededTables k s call.1 ≤ 4
  | .error _ _ => True

/-- The tables that are left are not in use: the first missing entry is not in one of them. -/
def Apart (k : Platform) (r : EStateM.Result Fault State Unit) (call : Word × Word) : Prop :=
  match r with
  | .ok _ s => Unused k s (missingAt k (view s) (rootFrame k call.1) (rootIndex k call.1)
      (lowerIndices call.1))
  | .error _ _ => True

instance fits_decidable (k : Platform) (r : EStateM.Result Fault State Unit)
    (call : Word × Word) : Decidable (Fits k r call) :=
  match r with
  | .ok _ _ => inferInstanceAs (Decidable (_ ≤ _))
  | .error _ _ => isTrue trivial

/-- Calls that fit stay in `pt_scratch`. -/
theorem used_le_of_fits {r : EStateM.Result Fault State Unit} {calls : List (Word × Word)}
    (hstart : (ended r).ptScratchUsed ≤ 4) (hfits : Guarded (nextCall k) (Fits k) r calls) :
    (ended (calls.foldl (nextCall k) r)).ptScratchUsed ≤ 4 := by
  refine hfits.invariant (I := fun r => (ended r).ptScratchUsed ≤ 4) ?_ hstart
  intro r call hused hcall
  cases r with
  | ok u s =>
      exact Nat.le_trans (mapPage_used_le k call.1 call.2 s) hcall
  | error e s =>
      exact hused

/-- The first call that does not fit goes past the end. -/
theorem fits_of_used_le {r : EStateM.Result Fault State Unit} {calls : List (Word × Word)}
    (hapart : Guarded (nextCall k) (Apart k) r calls)
    (hused : (ended (calls.foldl (nextCall k) r)).ptScratchUsed ≤ 4) :
    Guarded (nextCall k) (Fits k) r calls := by
  induction calls generalizing r with
  | nil =>
      exact trivial
  | cons call calls ih =>
      refine ⟨?_, ih hapart.2 hused⟩
      cases r with
      | ok u s =>
          have hlater := (later_calls k (mapPage k call.1 call.2 k.hhdm s) calls).used
          have hfirst := (moves_mapPage k call.1 call.2 s).used
          have hcall : (ended (mapPage k call.1 call.2 k.hhdm s)).ptScratchUsed ≤ 4 :=
            Nat.le_trans hlater hused
          by_contra hover
          exact absurd hcall (Nat.not_le.2
            (mapPage_over hapart.1 (Nat.le_trans hfirst hcall) (Nat.lt_of_not_le hover) call.2))
      | error e s =>
          exact trivial

/-- The paths to the tables that a call goes through. -/
def tablePaths (v : Word) : List (List Index) :=
  [[index v 39], [index v 39, index v 30], path v]

/-- The paths of all calls, each once. -/
def allPaths (calls : List (Word × Word)) : Finset (List Index) :=
  (calls.flatMap (fun call => tablePaths call.1)).toFinset

/-- The paths among `P` on which a table is missing. -/
def missingIn (k : Platform) (s : State) (P : Finset (List Index)) : Finset (List Index) :=
  missing hwNext (view s) (hwFrame k.cr3) P

/-- How many tables the calls need. -/
def missingTables (k : Platform) (s : State) (calls : List (Word × Word)) : Nat :=
  (missingIn k s (allPaths calls)).card

theorem mem_tablePaths {v : Word} : q ∈ tablePaths v ↔ q ≠ [] ∧ q <+: path v := by
  simp only [tablePaths, path, List.mem_cons, List.not_mem_nil, or_false, List.prefix_cons_iff,
    List.prefix_nil]
  constructor
  · rintro (rfl | rfl | rfl) <;> simp
  · rintro ⟨hne, rfl | ⟨q, rfl, rfl | ⟨r, rfl, rfl | ⟨_, rfl, rfl⟩⟩⟩⟩
    · exact absurd rfl hne
    · exact Or.inl rfl
    · exact Or.inr (Or.inl rfl)
    · exact Or.inr (Or.inr rfl)

theorem mem_allPaths {calls : List (Word × Word)} :
    q ∈ allPaths calls ↔ ∃ call ∈ calls, q ≠ [] ∧ q <+: path call.1 := by
  simp only [allPaths, List.mem_toFinset, List.mem_flatMap, mem_tablePaths]

theorem allPaths_length {calls : List (Word × Word)} : ∀ q ∈ allPaths calls, q.length ≤ 3 := by
  intro q hq
  obtain ⟨call, -, -, hprefix⟩ := mem_allPaths.1 hq
  exact hprefix.length_le

/-- `P` has the paths to all tables that a walk from `p` along `q` goes through. -/
def Covers (P : Finset (List Index)) (p q : List Index) : Prop :=
  ∀ r, r ≠ [] → r <+: q → p ++ r ∈ P

theorem covers_allPaths {calls : List (Word × Word)} {call : Word × Word} (hcall : call ∈ calls) :
    Covers (allPaths calls) [] (path call.1) :=
  fun _ hne hr => mem_allPaths.2 ⟨call, hcall, hne, hr⟩

/-- The tables handed out and those still to be handed out for `P` add up to the same before and
after, and no path gets lost. -/
structure Accounted (k : Platform) (P : Finset (List Index)) (s s' : State) : Prop where
  balance : s'.ptScratchUsed + (missingIn k s' P).card = s.ptScratchUsed + (missingIn k s P).card
  kept : missingIn k s' P ⊆ missingIn k s P

variable {P : Finset (List Index)}

theorem Covers.head (h : Covers P p (i :: q)) : p ++ [i] ∈ P :=
  h [i] (List.cons_ne_nil _ _) (by simp)

theorem Covers.tail (h : Covers P p (i :: q)) : Covers P (p ++ [i]) q := by
  intro r _ hr
  rw [List.append_assoc]
  exact h (i :: r) (List.cons_ne_nil _ _) (by simpa using hr)

theorem Accounted.refl (k : Platform) (P : Finset (List Index)) (s : State) : Accounted k P s s :=
  ⟨rfl, Finset.Subset.refl _⟩

theorem Accounted.trans {s₁ s₂ s₃ : State} (h : Accounted k P s₁ s₂) (h' : Accounted k P s₂ s₃) :
    Accounted k P s₁ s₃ :=
  ⟨h'.balance.trans h.balance, h'.kept.trans h.kept⟩

theorem mem_missingIn_absent (hn : follow hwNext (view s) (hwFrame k.cr3) p = some n)
    (habsent : ¬ Present (view s n i)) (hmem : p ++ [i] ∈ P) : p ++ [i] ∈ missingIn k s P :=
  mem_missing.2 ⟨hmem, (follow_snoc hn i).trans (hwNext_of_absent habsent)⟩

/-- Linking a table takes its path away from the missing ones. -/
theorem linkTable_accounted (hscratch : ∀ m, m < 4 → ScratchPage k m)
    (hP : ∀ q ∈ P, q.length ≤ 3) (h : Ready k s) (hleft : s.ptScratchUsed < 4)
    (hp : p.length < 3) (hn : follow hwNext (view s) (hwFrame k.cr3) p = some n)
    (habsent : ¬ Present (view s n i)) (hmem : p ++ [i] ∈ P) :
    Accounted k P s (linkTable k (entryAt k n i) s) := by
  have hpage : ScratchPage k s.ptScratchUsed := hscratch _ hleft
  have hlinks := h.links hpage hleft hp hn habsent
  have hcard := hlinks.card_missing hP hmem
  have hview := view_linkTable hpage n i
  have hused := linkTable_used k (entryAt k n i) s
  rw [← hview] at hcard
  refine ⟨?_, fun q hq => ?_⟩
  · unfold missingIn
    omega
  · -- Linking a table makes no path lead nowhere.
    rcases mem_missing.1 hq with ⟨hqP, hnone⟩
    rw [hview] at hnone
    exact mem_missing.2 ⟨hqP, ((hlinks.follow_eq_none (hP q hqP)).1 hnone).1⟩

/-- A part of the calls either stays in `pt_scratch` and keeps the account, or goes past the end,
and then there were more missing paths than tables left. -/
def Settled (k : Platform) (P : Finset (List Index)) (s s' : State) : Prop :=
  (s'.ptScratchUsed ≤ 4 ∧ Accounted k P s s') ∨
    (4 < s'.ptScratchUsed ∧ 4 < s.ptScratchUsed + (missingIn k s P).card)

theorem Accounted.settled {s₁ s₂ s₃ : State} (h : Accounted k P s₁ s₂) (h' : Settled k P s₂ s₃) :
    Settled k P s₁ s₃ := by
  rcases h' with ⟨hused, hrest⟩ | ⟨hover, hmissing⟩
  · exact Or.inl ⟨hused, h.trans hrest⟩
  · exact Or.inr ⟨hover, h.balance ▸ hmissing⟩

/-- The way down from entry `i` of the table at `p`. -/
theorem descend_settled (hscratch : ∀ m, m < 4 → ScratchPage k m)
    (hP : ∀ q ∈ P, q.length ≤ 3) (h : Ready k s) (hstart : s.ptScratchUsed ≤ 4)
    (hlen : p.length + q.length ≤ 3) (hn : follow hwNext (view s) (hwFrame k.cr3) p = some n)
    (hcovers : Covers P p (i :: q).dropLast) :
    Settled k P s (ended (descend k (entryAt k n i) q s)) := by
  induction q generalizing p n i s with
  | nil =>
      exact Or.inl ⟨hstart, Accounted.refl k P s⟩
  | cons j q ih =>
      have hp : p.length < 3 := by
        rw [List.length_cons] at hlen
        omega
      have haccepted : Accepted k (entryAt k n i) := h.shown n ⟨p, Nat.le_of_lt hp, hn⟩ i
      rw [List.dropLast_cons_cons] at hcovers
      by_cases hpresent : Present (view s n i)
      · rcases h.hierarchy.clean p n i hp hn hpresent with ⟨hsmall, hhigh⟩
        have hnext := hwNext_of_table hpresent hsmall
        rw [descend_present haccepted hpresent, (frameOf_eq_hwFrame _).2 hhigh]
        exact ih h hstart (length_snoc_le hlen i) ((follow_snoc hn i).trans hnext) hcovers.tail
      · rw [descend_absent haccepted hpresent]
        have hused := linkTable_used k (entryAt k n i) s
        by_cases hleft : s.ptScratchUsed < 4
        · have hpage := hscratch _ hleft
          have hlinks := h.links hpage hleft hp hn hpresent
          rw [frameOf_scratchEntry hpage]
          refine (linkTable_accounted hscratch hP h hleft hp hn hpresent hcovers.head).settled
            (ih (h.linkTable hscratch hleft hp hn hpresent) (by omega) (length_snoc_le hlen i) ?_
              hcovers.tail)
          rw [view_linkTable hpage]
          exact hlinks.follow_self
        · -- The four tables are used up, and the path is missing.
          have hlater := (moves_descend k
            (entryAt k (frameOf (scratchEntry k s.ptScratchUsed)) j) q
            (linkTable k (entryAt k n i) s)).used
          have hpos : 0 < (missingIn k s P).card :=
            Finset.card_pos.2 ⟨_, mem_missingIn_absent hn hpresent hcovers.head⟩
          exact Or.inr ⟨by omega, by omega⟩

/-- The leaf is below all paths to tables. -/
theorem missingIn_writeLeaf (hP : ∀ q ∈ P, q.length ≤ 3) (h : Ready k s) (hp : p.length = 3)
    (hn : follow hwNext (view s) (hwFrame k.cr3) p = some n) (i : Index) (w : Word) :
    missingIn k (writeHhdm k (entryAt k n i) w s) P = missingIn k s P := by
  ext q
  rw [missingIn, missingIn, mem_missing, mem_missing, view_writeHhdm]
  constructor
  · rintro ⟨hq, hnone⟩
    exact ⟨hq, (follow_setLeaf h.hierarchy.tree hn hp (hP q hq)).symm.trans hnone⟩
  · rintro ⟨hq, hnone⟩
    exact ⟨hq, (follow_setLeaf h.hierarchy.tree hn hp (hP q hq)).trans hnone⟩

/-- One call; if it stays in `pt_scratch`, none of its paths is missing afterwards. -/
theorem mapPage_settled (hscratch : ∀ m, m < 4 → ScratchPage k m) (hP : ∀ q ∈ P, q.length ≤ 3)
    (h : Ready k s) (hstart : s.ptScratchUsed ≤ 4) {virt : Word}
    (hcovers : Covers P [] (path virt)) (phys : Word) :
    Settled k P s (ended (mapPage k virt phys k.hhdm s)) ∧
      ((ended (mapPage k virt phys k.hhdm s)).ptScratchUsed ≤ 4 →
        ∀ r, r <+: path virt → r ∉ missingIn k (ended (mapPage k virt phys k.hhdm s)) P) := by
  rcases root_of_page h.cr3_page virt with ⟨hframe, hindex⟩
  have hdown := descend_settled hscratch hP h hstart (p := []) (q := lowerIndices virt)
    (Nat.le_refl 3) rfl hcovers
  have hused := mapPage_used k virt phys s
  rw [hframe, hindex] at hused
  by_cases hfour : (ended (mapPage k virt phys k.hhdm s)).ptScratchUsed ≤ 4
  · -- It stays in `pt_scratch`, so it runs to its end, and the leaf changes no path.
    rw [hused] at hfour
    rcases descend_spec hscratch h (p := []) (q := lowerIndices virt) (Nat.le_refl 3) rfl hfour with
      ⟨pt, s', hruns, hensured⟩
    have hnode : follow hwNext (view s') (hwFrame k.cr3) (path virt) = some pt := hensured.node
    have haccepted : Accepted k (entryAt k pt (index virt 12)) :=
      hensured.ready.shown pt ⟨path virt, Nat.le_refl 3, hnode⟩ _
    have hcall : mapPage k virt phys k.hhdm s =
        .ok () (writeHhdm k (entryAt k pt (index virt 12)) (pageEntry phys) s') := by
      rw [mapPage_eq, hframe, hindex, bind_of_ok hruns]
      exact storeHhdm_of_accepted haccepted _
    have hleaf := missingIn_writeLeaf hP hensured.ready rfl hnode (index virt 12) (pageEntry phys)
    rw [hruns, ended_ok] at hdown hfour
    rw [hcall, ended_ok]
    constructor
    · rcases hdown with ⟨hle, haccount⟩ | ⟨hover, -⟩
      · refine Or.inl ⟨hle, ⟨?_, ?_⟩⟩
        · rw [hleaf]
          exact haccount.balance
        · rw [hleaf]
          exact haccount.kept
      · exact absurd hfour (Nat.not_le.2 hover)
    · -- The walk now goes through all tables of its path.
      intro _ r hr hmissing
      rw [hleaf] at hmissing
      rcases follow_of_prefix hr hnode with ⟨n', hn'⟩
      rw [(mem_missing.1 hmissing).2] at hn'
      cases hn'
  · refine ⟨Or.inr ⟨Nat.lt_of_not_le hfour, ?_⟩, fun hle => absurd hle hfour⟩
    rcases hdown with ⟨hle, -⟩ | ⟨-, hmissing⟩
    · rw [hused] at hfour
      exact absurd hle hfour
    · exact hmissing

theorem mapPages_settled (hscratch : ∀ m, m < 4 → ScratchPage k m) (hP : ∀ q ∈ P, q.length ≤ 3)
    (h : Ready k s) (hstart : s.ptScratchUsed ≤ 4) {calls : List (Word × Word)}
    (hcovers : ∀ call ∈ calls, Covers P [] (path call.1)) :
    Settled k P s (ended (mapPages k calls s)) ∧
      ((ended (mapPages k calls s)).ptScratchUsed ≤ 4 → ∀ call ∈ calls, ∀ r, r <+: path call.1 →
        r ∉ missingIn k (ended (mapPages k calls s)) P) := by
  induction calls generalizing s with
  | nil =>
      exact ⟨Or.inl ⟨hstart, Accounted.refl k P s⟩,
        fun _ call hcall => absurd hcall List.not_mem_nil⟩
  | cons call calls ih =>
      have hcall := hcovers call List.mem_cons_self
      rcases mapPage_settled hscratch hP h hstart hcall call.2 with ⟨hfirst, hfound⟩
      have hlater := (later_calls k (mapPage k call.1 call.2 k.hhdm s) calls).used
      have hcons : mapPages k (call :: calls) s =
          calls.foldl (nextCall k) (mapPage k call.1 call.2 k.hhdm s) := rfl
      rcases hfirst with ⟨hfour, haccount⟩ | ⟨hover, hmissing⟩
      · rcases mapPage_spec hscratch h call.1 call.2 hfour with ⟨s₁, hruns, hready, -⟩
        rw [hruns, ended_ok] at hfour haccount hfound
        rcases ih hready hfour (fun c hc => hcovers c (List.mem_cons_of_mem _ hc)) with
          ⟨hrest, hrest'⟩
        rw [hcons, hruns]
        refine ⟨haccount.settled hrest, fun hused c hc r hr => ?_⟩
        rcases List.mem_cons.1 hc with rfl | hmem
        · -- The later calls keep what this one has linked.
          intro hmissing
          rcases hrest with ⟨-, hkept⟩ | ⟨hover, -⟩
          · exact hfound hfour r hr (hkept.kept hmissing)
          · exact absurd hused (Nat.not_le.2 hover)
        · exact hrest' hused c hmem r hr
      · rw [hcons]
        exact ⟨Or.inr ⟨Nat.lt_of_lt_of_le hover hlater, hmissing⟩,
          fun hused => absurd hused (Nat.not_le.2 (Nat.lt_of_lt_of_le hover hlater))⟩

/-- In a tree the calls fit in `pt_scratch` exactly when the tables missing on their paths do. -/
theorem mapPages_fits_iff (hscratch : ∀ m, m < 4 → ScratchPage k m) (h : Ready k s)
    (hstart : s.ptScratchUsed ≤ 4) (calls : List (Word × Word)) :
    (ended (mapPages k calls s)).ptScratchUsed ≤ 4 ↔
      s.ptScratchUsed + missingTables k s calls ≤ 4 := by
  rcases mapPages_settled hscratch allPaths_length h hstart
    (fun _ hcall => covers_allPaths hcall) with ⟨hsettled, hfound⟩
  constructor
  · intro hused
    -- At the end nothing is missing, so the balance is the counter.
    have hnone : missingIn k (ended (mapPages k calls s)) (allPaths calls) = ∅ := by
      refine Finset.eq_empty_of_forall_notMem (fun r hr => ?_)
      rcases mem_allPaths.1 (mem_missing.1 hr).1 with ⟨call, hcall, -, hprefix⟩
      exact hfound hused call hcall r hprefix hr
    rcases hsettled with ⟨-, haccount⟩ | ⟨hover, -⟩
    · have hbalance := haccount.balance
      rw [hnone, Finset.card_empty] at hbalance
      unfold missingTables
      omega
    · exact absurd hused (Nat.not_le.2 hover)
  · intro hbudget
    rcases hsettled with ⟨hused, -⟩ | ⟨-, hmissing⟩
    · exact hused
    · exact absurd hbudget (Nat.not_le.2 hmissing)

/-- The first missing entry is in a table of the hierarchy. -/
theorem missingAt_reached {f : Frame} (h : Ready k s) (hlen : p.length + q.length ≤ 3)
    (hn : follow hwNext (view s) (hwFrame k.cr3) p = some n)
    (hsome : missingAt k (view s) n i q = some f) :
    Reached hwNext (view s) (hwFrame k.cr3) 3 f := by
  induction q generalizing p n i with
  | nil =>
      cases hsome
  | cons j q ih =>
      rw [missingAt] at hsome
      split at hsome
      · split at hsome
        · next hpresent =>
            have hp : p.length < 3 := by
              rw [List.length_cons] at hlen
              omega
            rcases h.hierarchy.clean p n i hp hn hpresent with ⟨hsmall, hhigh⟩
            rw [(frameOf_eq_hwFrame _).2 hhigh] at hsome
            exact ih (length_snoc_le hlen i)
              ((follow_snoc hn i).trans (hwNext_of_table hpresent hsmall)) hsome
        · rw [← Option.some.inj hsome]
          exact ⟨p, by omega, hn⟩
      · cases hsome

/-- In a tree no call comes to a table that is not yet handed out. -/
theorem guarded_apart (hscratch : ∀ m, m < 4 → ScratchPage k m) (h : Ready k s)
    {calls : List (Word × Word)} (hused : (ended (mapPages k calls s)).ptScratchUsed ≤ 4) :
    Guarded (nextCall k) (Apart k) (.ok () s) calls := by
  induction calls generalizing s with
  | nil =>
      exact trivial
  | cons call calls ih =>
      have hfirst : (ended (mapPage k call.1 call.2 k.hhdm s)).ptScratchUsed ≤ 4 :=
        Nat.le_trans (later_calls k (mapPage k call.1 call.2 k.hhdm s) calls).used hused
      rcases mapPage_spec hscratch h call.1 call.2 hfirst with ⟨s₁, hruns, hready, -⟩
      have hcons : mapPages k (call :: calls) s =
          calls.foldl (nextCall k) (mapPage k call.1 call.2 k.hhdm s) := rfl
      have hnext : nextCall k (.ok () s) call = .ok () s₁ := hruns
      rw [hcons, hruns] at hused
      refine ⟨⟨fun m _ hm4 => hscratch m hm4, h.scratchShown, ?_⟩, hnext ▸ ih hready hused⟩
      intro m hm hm4 hsome
      rcases root_of_page h.cr3_page call.1 with ⟨hframe, hindex⟩
      rw [hframe, hindex] at hsome
      exact h.fresh m hm hm4
        (missingAt_reached h (p := []) (q := lowerIndices call.1) (Nat.le_refl 3) rfl hsome)

/-- In a tree only tables of `pt_scratch` are handed out and cleared exactly when every call fits,
and the paths of the calls tell at the start whether they do: the tables handed out before and those
missing on the paths are no more than four. -/
theorem scratch_only_tree_iff (k : Platform) (s : State) (calls : List (Word × Word))
    (hscratch : ∀ m, m < 4 → ScratchPage k m) (h : Ready k s) (hstart : s.ptScratchUsed ≤ 4) :
    (ScratchOnly k calls s ↔ Guarded (nextCall k) (Fits k) (.ok () (freshRecord s)) calls) ∧
      (ScratchOnly k calls s ↔ s.ptScratchUsed + missingTables k s calls ≤ 4) := by
  have hfresh : Ready k (freshRecord s) :=
    ⟨h.cr3_page, h.hierarchy, h.fresh, h.shown, h.scratchShown⟩
  have hfits := mapPages_fits_iff hscratch hfresh hstart calls
  refine ⟨⟨fun hscratchOnly => ?_, fun hcalls => ?_⟩, ⟨fun hscratchOnly => ?_, fun hbudget => ?_⟩⟩
  · have hused := used_le_of_scratchOnly hstart hscratchOnly
    exact fits_of_used_le (guarded_apart hscratch hfresh hused) hused
  · exact scratchOnly_of_used_le (used_le_of_fits hstart hcalls)
  · exact hfits.1 (used_le_of_scratchOnly hstart hscratchOnly)
  · exact scratchOnly_of_used_le (hfits.2 hbudget)

end Paging
end Feudos
