import Feudos.Library.Run
import Feudos.Paging.Descent
import Feudos.Paging.Walk

/-!
# What `map_page` does to the translations

- `Ready`          : the tables form a hierarchy in the direct map, and the scratch tables left are
  not in it;
- `Ready.linkTable`: `alloc_table` and the store of its address keep such a state;
- `descend_spec`   : the upper levels lead to a last table, and no translation changes;
- `mapPage_spec`   : one call changes the leaf of one page;
- `mapPages_translate` : after any calls, the pages asked for translate as asked last, and all
  others as before.
-/

namespace Feudos
namespace Paging

open Faulting RadixTree

/-! ## The state between calls -/

/-- The direct map has the page of a frame. -/
def Shown (k : Platform) (f : Frame) : Prop := ∀ i : Index, Accepted k (entryAt k f i)

/-- `CR3` has no flags, the tables of the state form a hierarchy that none of the remaining scratch
tables belongs to, and the direct map has the pages of both. -/
structure Ready (k : Platform) (s : State) : Prop where
  cr3_page : k.cr3 &&& 0xFFF = 0
  hierarchy : Hierarchy k (view s)
  fresh : ∀ n, s.ptScratchUsed ≤ n → n < 4 →
    ¬ Reached hwNext (view s) (hwFrame k.cr3) 3 (scratchFrame k n)
  shown : ∀ f, Reached hwNext (view s) (hwFrame k.cr3) 3 f → Shown k f
  scratchShown : ∀ n, s.ptScratchUsed ≤ n → n < 4 → Shown k (scratchFrame k n)

variable {k : Platform} {s : State} {n : Frame} {i : Index} {p : List Index}

/-! ## Linking a table -/

theorem view_linkTable (hpage : ScratchPage k s.ptScratchUsed) (n : Frame) (i : Index) :
    view (linkTable k (entryAt k n i) s) =
      link (view s) n i (scratchFrame k s.ptScratchUsed) (scratchEntry k s.ptScratchUsed) 0 := by
  rw [linkTable, view_writeHhdm, allocated, view_zeroTable hpage]
  rfl

/-- The address of a page, as a number. -/
theorem page_toNat {w : Word} (hw : w &&& ~~~(0xFFF : Word) = w) : w.toNat % 4096 = 0 := by
  have hNat := toNat_and_page w
  rw [hw] at hNat
  omega

section

variable {m : Nat} (hpage : ScratchPage k m)

include hpage

theorem scratchEntry_highClear : HighClear (scratchEntry k m) :=
  (highClear_or_three (page_toNat hpage.1)).2 ((highClear_iff _).2 hpage.2)

theorem frameOf_scratchEntry : frameOf (scratchEntry k m) = scratchFrame k m :=
  frameOf_or_three (page_toNat hpage.1)

theorem not_pageSize_scratchEntry : ¬ PageSize (scratchEntry k m) :=
  not_pageSize_or_three (page_toNat hpage.1)

theorem hwNext_scratchEntry : hwNext (scratchEntry k m) = some (scratchFrame k m) := by
  have hframe := (frameOf_eq_hwFrame _).2 (scratchEntry_highClear hpage)
  have hpresent : Present (scratchEntry k m) := present_or_three (page_toNat hpage.1)
  rw [hwNext_of_table hpresent (not_pageSize_scratchEntry hpage), ← hframe,
    frameOf_scratchEntry hpage]

end

/-- The next scratch table can be linked in an empty entry. -/
theorem Ready.links (h : Ready k s) (hpage : ScratchPage k s.ptScratchUsed)
    (hleft : s.ptScratchUsed < 4) (hp : p.length < 3)
    (hn : follow hwNext (view s) (hwFrame k.cr3) p = some n) (habsent : ¬ Present (view s n i)) :
    Links hwNext (view s) (hwFrame k.cr3) 3 p i n (scratchFrame k s.ptScratchUsed)
      (scratchEntry k s.ptScratchUsed) 0 where
  tree := h.hierarchy.tree
  node := hn
  inner := hp
  free := hwNext_of_absent habsent
  fresh := h.fresh _ (Nat.le_refl _) hleft
  target := hwNext_scratchEntry hpage
  empty := by decide

/-- Linking a table whose entry has no special bits keeps a hierarchy. -/
theorem Hierarchy.link {m : Frame → Index → Word} {f : Frame} {e : Word} (h : Hierarchy k m)
    (hlinks : Links hwNext m (hwFrame k.cr3) 3 p i n f e 0) (hclean : ¬ PageSize e ∧ HighClear e) :
    Hierarchy k (RadixTree.link m n i f e 0) where
  tree := hlinks.tree_link
  clean := by
    intro q n' j hq hn' hpresent
    rw [link_apply] at hpresent ⊢
    by_cases hentry : n' = n ∧ j = i
    · rw [if_pos hentry]
      exact hclean
    · rw [if_neg hentry] at hpresent ⊢
      by_cases hf : n' = f
      · -- The new table is empty.
        rw [if_pos hf] at hpresent
        exact absurd hpresent (by decide)
      · rw [if_neg hf] at hpresent ⊢
        rcases hlinks.follow_cases (Nat.le_of_lt hq) hn' with ⟨-, hf'⟩ | ⟨-, hold⟩
        · exact absurd hf' hf
        · exact h.clean q n' j hq hold hpresent

theorem Ready.linkTable (hscratch : ∀ m, m < 4 → ScratchPage k m) (h : Ready k s)
    (hleft : s.ptScratchUsed < 4) (hp : p.length < 3)
    (hn : follow hwNext (view s) (hwFrame k.cr3) p = some n) (habsent : ¬ Present (view s n i)) :
    Ready k (linkTable k (entryAt k n i) s) := by
  have hpage := hscratch _ hleft
  have hlinks := h.links hpage hleft hp hn habsent
  have hview := view_linkTable hpage n i
  have hused := linkTable_used k (entryAt k n i) s
  refine ⟨h.cr3_page, ?_, ?_, ?_, ?_⟩
  · rw [hview]
    exact h.hierarchy.link hlinks
      ⟨not_pageSize_scratchEntry hpage, scratchEntry_highClear hpage⟩
  · intro m hm hm4 hreached
    rw [hused] at hm
    rw [hview] at hreached
    -- A later scratch table was not reached before, and is not the one linked now.
    rcases hlinks.reached_cases hreached with hold | hf
    · exact h.fresh m (Nat.le_of_succ_le hm) hm4 hold
    · have hEq := scratchFrame_inj (hscratch m hm4) hpage (by omega) (by omega) hf
      omega
  · intro f hreached
    rw [hview] at hreached
    rcases hlinks.reached_cases hreached with hold | hf
    · exact h.shown f hold
    · rw [hf]
      exact h.scratchShown _ (Nat.le_refl _) hleft
  · intro m hm hm4
    rw [hused] at hm
    exact h.scratchShown m (Nat.le_of_succ_le hm) hm4

/-! ## The upper levels -/

/-- The path `p` leads to the table `n`, and no translation has changed. -/
structure Ensured (k : Platform) (s s' : State) (p : List Index) (n : Frame) : Prop where
  ready : Ready k s'
  node : follow hwNext (view s') (hwFrame k.cr3) p = some n
  find_eq : ∀ (q : List Index) (j : Index), q.length = 3 →
    find hwNext hwLeaf (view s') (hwFrame k.cr3) q j =
      find hwNext hwLeaf (view s) (hwFrame k.cr3) q j

/-- From entry `i` of the table at `p`, the upper levels come to the last of the indices, in the
table that the others lead to. -/
theorem descend_spec (hscratch : ∀ m, m < 4 → ScratchPage k m) {q : List Index} (h : Ready k s)
    (hlen : p.length + q.length ≤ 3) (hn : follow hwNext (view s) (hwFrame k.cr3) p = some n)
    (hused : (ended (descend k (entryAt k n i) q s)).ptScratchUsed ≤ 4) :
    ∃ n' s', descend k (entryAt k n i) q s =
        .ok (entryAt k n' ((i :: q).getLast (List.cons_ne_nil i q))) s' ∧
      Ensured k s s' (p ++ (i :: q).dropLast) n' := by
  induction q generalizing p n i s with
  | nil =>
      refine ⟨n, s, rfl, h, ?_, fun _ _ _ => rfl⟩
      rw [List.dropLast_singleton, List.append_nil]
      exact hn
  | cons j q ih =>
      have hp : p.length < 3 := by
        rw [List.length_cons] at hlen
        omega
      have haccepted : Accepted k (entryAt k n i) := h.shown n ⟨p, Nat.le_of_lt hp, hn⟩ i
      rw [List.dropLast_cons_cons, List.append_cons, List.getLast_cons (List.cons_ne_nil j q)]
      by_cases hpresent : Present (view s n i)
      · -- The entry is there: it leads to a table, by the promise about upper entries.
        rcases h.hierarchy.clean p n i hp hn hpresent with ⟨hsmall, hhigh⟩
        have hnext := hwNext_of_table hpresent hsmall
        rw [descend_present haccepted hpresent, (frameOf_eq_hwFrame _).2 hhigh] at hused ⊢
        exact ih h (length_snoc_le hlen i) ((follow_snoc hn i).trans hnext) hused
      · -- The entry is empty: the next scratch table is cleared and linked in it.
        rw [descend_absent haccepted hpresent] at hused ⊢
        have hlater := (moves_descend k
          (entryAt k (frameOf (scratchEntry k s.ptScratchUsed)) j) q
          (linkTable k (entryAt k n i) s)).used
        rw [linkTable_used] at hlater
        have hleft : s.ptScratchUsed < 4 := by omega
        have hpage := hscratch _ hleft
        have hlinks := h.links hpage hleft hp hn hpresent
        have hview := view_linkTable hpage n i
        have hnode : follow hwNext (view (linkTable k (entryAt k n i) s)) (hwFrame k.cr3)
            (p ++ [i]) = some (scratchFrame k s.ptScratchUsed) := by
          rw [hview]
          exact hlinks.follow_self
        rw [frameOf_scratchEntry hpage] at hused ⊢
        rcases ih (h.linkTable hscratch hleft hp hn hpresent) (length_snoc_le hlen i) hnode hused
          with ⟨n', s', hruns, hensured⟩
        refine ⟨n', s', hruns, hensured.ready, hensured.node, ?_⟩
        intro r j' hr
        rw [hensured.find_eq r j' hr, hview]
        exact hlinks.find_link (by decide) hr j'

/-! ## One call -/

/-- The last store of `map_page` writes below the tables that entries lead to. -/
theorem Ready.writeLeaf (h : Ready k s) (hp : p.length = 3)
    (hn : follow hwNext (view s) (hwFrame k.cr3) p = some n) (i : Index) (w : Word) :
    Ready k (writeHhdm k (entryAt k n i) w s) := by
  have htree := h.hierarchy.tree
  have hreached : ∀ f, Reached hwNext (view (writeHhdm k (entryAt k n i) w s)) (hwFrame k.cr3) 3 f →
      Reached hwNext (view s) (hwFrame k.cr3) 3 f := by
    intro f hf
    rw [view_writeHhdm, reached_setLeaf htree hn hp] at hf
    exact hf
  refine ⟨h.cr3_page, ⟨?_, ?_⟩, ?_, ?_, h.scratchShown⟩
  · rw [view_writeHhdm]
    exact htree.setLeaf hn hp
  · intro q n' j hq hn' hpresent
    rw [view_writeHhdm] at hn' hpresent ⊢
    rw [follow_setLeaf htree hn hp (Nat.le_of_lt hq)] at hn'
    -- A table at depth 3 is none of the upper ones.
    have hne : ¬ (n' = n ∧ j = i) := by
      rintro ⟨rfl, -⟩
      have hqp := htree q p n' (Nat.le_of_lt hq) (Nat.le_of_eq hp) hn' hn
      rw [hqp, hp] at hq
      exact Nat.lt_irrefl 3 hq
    rw [set_apply, if_neg hne] at hpresent ⊢
    exact h.hierarchy.clean q n' j hq hn' hpresent
  · exact fun m hm hm4 hm' => h.fresh m hm hm4 (hreached _ hm')
  · exact fun f hf => h.shown f (hreached f hf)

/-- One call: the leaf of the page becomes the entry of the physical page, and every other leaf is
as before. -/
theorem mapPage_spec (hscratch : ∀ m, m < 4 → ScratchPage k m) (h : Ready k s) (virt phys : Word)
    (hused : (ended (mapPage k virt phys k.hhdm s)).ptScratchUsed ≤ 4) :
    ∃ s', mapPage k virt phys k.hhdm s = .ok () s' ∧ Ready k s' ∧
      ∀ (q : List Index) (j : Index), q.length = 3 →
        find hwNext hwLeaf (view s') (hwFrame k.cr3) q j =
          if q = path virt ∧ j = index virt 12 then hwLeaf (pageEntry phys)
          else find hwNext hwLeaf (view s) (hwFrame k.cr3) q j := by
  rcases root_of_page h.cr3_page virt with ⟨hframe, hindex⟩
  rw [mapPage_used, hframe, hindex] at hused
  rcases descend_spec hscratch h (p := []) (q := lowerIndices virt) (Nat.le_refl 3) rfl hused with
    ⟨pt, s', hruns, hensured⟩
  have hnode : follow hwNext (view s') (hwFrame k.cr3) (path virt) = some pt := hensured.node
  have haccepted : Accepted k (entryAt k pt (index virt 12)) :=
    hensured.ready.shown pt ⟨path virt, Nat.le_refl 3, hnode⟩ _
  refine ⟨writeHhdm k (entryAt k pt (index virt 12)) (pageEntry phys) s', ?_,
    hensured.ready.writeLeaf rfl hnode _ _, ?_⟩
  · rw [mapPage_eq, hframe, hindex, bind_of_ok hruns]
    exact storeHhdm_of_accepted haccepted _
  · intro q j hq
    rw [view_writeHhdm, find_setLeaf hensured.ready.hierarchy.tree hnode rfl hq,
      hensured.find_eq q j hq]

/-! ## Any number of calls -/

/-- The physical address given last for the page of `v`. -/
def requested (v : Word) : List (Word × Word) → Option Word
  | [] => none
  | (virt, phys) :: calls => (requested v calls).or (if SamePage v virt then some phys else none)

/-- The leaf of a page after any calls. -/
theorem mapPages_spec (hscratch : ∀ m, m < 4 → ScratchPage k m) (h : Ready k s)
    {calls : List (Word × Word)} (hcalls : ∀ call ∈ calls, Canonical call.1)
    (hused : (ended (mapPages k calls s)).ptScratchUsed ≤ 4) :
    ∃ s', mapPages k calls s = .ok () s' ∧ Ready k s' ∧ ∀ v, Canonical v →
      find hwNext hwLeaf (view s') (hwFrame k.cr3) (path v) (index v 12) =
        match requested v calls with
        | some phys => hwLeaf (pageEntry phys)
        | none => find hwNext hwLeaf (view s) (hwFrame k.cr3) (path v) (index v 12) := by
  induction calls generalizing s with
  | nil =>
      exact ⟨s, rfl, h, fun v _ => rfl⟩
  | cons call calls ih =>
      rcases call with ⟨virt, phys⟩
      have hvirt : Canonical virt := hcalls (virt, phys) List.mem_cons_self
      have hused' : (ended (mapPage k virt phys k.hhdm s)).ptScratchUsed ≤ 4 :=
        Nat.le_trans (later_calls k (mapPage k virt phys k.hhdm s) calls).used hused
      rcases mapPage_spec hscratch h virt phys hused' with ⟨s₁, hfirst, hready, hfind⟩
      have hrest : mapPages k ((virt, phys) :: calls) s = mapPages k calls s₁ := by
        rw [mapPages, List.foldl_cons, nextCall, hfirst]
        rfl
      rw [hrest] at hused ⊢
      rcases ih hready (fun call hmem => hcalls call (List.mem_cons_of_mem _ hmem)) hused with
        ⟨s', hruns, hready', hfind'⟩
      refine ⟨s', hruns, hready', fun v hv => (hfind' v hv).trans ?_⟩
      simp only [requested]
      cases requested v calls with
      | some phys' =>
          rfl
      | none =>
          -- No later call is about this page: the call at hand decides.
          simp only [Option.none_or]
          rw [hfind (path v) (index v 12) rfl]
          by_cases hpage : SamePage v virt
          · rw [if_pos hpage, if_pos ((path_inj hv hvirt).2 hpage)]
          · rw [if_neg hpage, if_neg (fun hboth => hpage ((path_inj hv hvirt).1 hboth))]

theorem requested_mem {v phys : Word} {calls : List (Word × Word)}
    (h : requested v calls = some phys) : ∃ virt, (virt, phys) ∈ calls ∧ SamePage v virt := by
  induction calls with
  | nil =>
      cases h
  | cons call calls ih =>
      rcases call with ⟨virt, phys'⟩
      rw [requested] at h
      cases hlater : requested v calls with
      | some phys'' =>
          rw [hlater, Option.some_or] at h
          rcases ih (hlater.trans h) with ⟨virt', hmem, hpage⟩
          exact ⟨virt', List.mem_cons_of_mem _ hmem, hpage⟩
      | none =>
          rw [hlater, Option.none_or] at h
          by_cases hpage : SamePage v virt
          · rw [if_pos hpage] at h
            cases h
            exact ⟨virt, List.mem_cons_self, hpage⟩
          · rw [if_neg hpage] at h
            cases h

theorem pageEntry_page (phys : Word) : (phys &&& ~~~(0xFFF : Word)).toNat % 4096 = 0 := by
  rw [toNat_and_page]
  exact Nat.mul_mod_right 4096 _

theorem present_pageEntry (phys : Word) : Present (pageEntry phys) :=
  present_or_three (pageEntry_page phys)

theorem writable_pageEntry (phys : Word) : Writable (pageEntry phys) :=
  writable_or_three (pageEntry_page phys)

theorem leafAddress_pageEntry {phys : Word} (hphys : phys.toNat < 2 ^ 52) (v : Word) :
    leafAddress 12 (pageEntry phys) v = (phys &&& ~~~(0xFFF : Word)) + (v &&& 0xFFF) := by
  have hpage := toNat_and_page phys
  have hentry : (pageEntry phys).toNat = 4096 * (phys.toNat / 2 ^ 12) + 3 := by
    rw [pageEntry, toNat_or_three (pageEntry_page phys), hpage]
  have hmask : (0xFFF : Word).toNat = 2 ^ 12 - 1 := rfl
  have hoffset : (v &&& 0xFFF).toNat = v.toNat % 2 ^ 12 := by
    rw [BitVec.toNat_and, hmask, Nat.and_two_pow_sub_one_eq_mod]
  apply BitVec.eq_of_toNat_eq
  calc
    (leafAddress 12 (pageEntry phys) v).toNat
        = 4096 * (phys.toNat / 2 ^ 12) + v.toNat % 2 ^ 12 := by
          rw [leafAddress, hentry, BitVec.toNat_ofNat]
          omega
    _ = ((phys &&& ~~~(0xFFF : Word)).toNat + (v &&& 0xFFF).toNat) % 2 ^ 64 := by
          rw [hpage, hoffset]
          omega
    _ = ((phys &&& ~~~(0xFFF : Word)) + (v &&& 0xFFF)).toNat := (BitVec.toNat_add _ _).symm

/-- The calls run through, and the walk of every address is decided by the call made last for its
page. -/
theorem mapPages_walk (hscratch : ∀ m, m < 4 → ScratchPage k m) (h : Ready k s)
    {calls : List (Word × Word)} (hcalls : ∀ call ∈ calls, Canonical call.1 ∧ call.2.toNat < 2 ^ 52)
    (hused : (ended (mapPages k calls s)).ptScratchUsed ≤ 4) :
    ∃ s', mapPages k calls s = .ok () s' ∧ ∀ v,
      hwWalk k (view s') v =
        match requested v calls with
        | some phys => some ⟨pageEntry phys, (phys &&& ~~~(0xFFF : Word)) + (v &&& 0xFFF)⟩
        | none => hwWalk k (view s) v := by
  have hcanonical : ∀ call ∈ calls, Canonical call.1 := fun call hmem => (hcalls call hmem).1
  rcases mapPages_spec hscratch h hcanonical hused with ⟨s', hruns, hready, hfind⟩
  refine ⟨s', hruns, fun v => ?_⟩
  cases hrequested : requested v calls with
  | some phys =>
      rcases requested_mem hrequested with ⟨virt, hmem, hpage⟩
      have hv : Canonical v := hpage.canonical (hcanonical (virt, phys) hmem)
      have hphys : phys.toNat < 2 ^ 52 := (hcalls (virt, phys) hmem).2
      rw [hwWalk_eq hready.hierarchy hv, hfind v hv, hrequested]
      simp only [hwLeaf, if_pos (present_pageEntry phys), Option.map_some, pageMapping,
        leafAddress_pageEntry hphys]
  | none =>
      by_cases hv : Canonical v
      · rw [hwWalk_eq hready.hierarchy hv, hwWalk_eq h.hierarchy hv, hfind v hv, hrequested]
      · -- An address that is not canonical has no walk, before and after.
        rw [hwWalk_of_not_canonical hv, hwWalk_of_not_canonical hv]

/-- After any calls of `map_page` that need no more than the four scratch tables, an address in a
page asked for translates to the physical page given last, through a present and writable leaf, and
every other address translates as before. -/
theorem mapPages_translate (k : Platform) (s : State) (calls : List (Word × Word))
    (hscratch : ∀ m, m < 4 → ScratchPage k m) (h : Ready k s)
    (hcalls : ∀ call ∈ calls, Canonical call.1 ∧ call.2.toNat < 2 ^ 52)
    (hused : (ended (mapPages k calls s)).ptScratchUsed ≤ 4) :
    ∃ s', mapPages k calls s = .ok () s' ∧ ∀ v,
      (∀ phys, requested v calls = some phys → ∃ e,
        hwWalk k (view s') v =
          some ⟨e, (phys &&& ~~~(0xFFF : Word)) + (v &&& 0xFFF)⟩ ∧ Present e ∧ Writable e) ∧
      (requested v calls = none → hwWalk k (view s') v = hwWalk k (view s) v) := by
  rcases mapPages_walk hscratch h hcalls hused with ⟨s', hruns, hwalk⟩
  refine ⟨s', hruns, fun v => ⟨?_, ?_⟩⟩
  · intro phys hphys
    have hv := hwalk v
    rw [hphys] at hv
    exact ⟨pageEntry phys, hv, present_pageEntry phys, writable_pageEntry phys⟩
  · intro hnone
    have hv := hwalk v
    rw [hnone] at hv
    exact hv

/-! ## A boot -/

/-- A kernel image at 1 MB, a root table at 4 KB, and a direct map of 2 MB. -/
def bootPlatform : Platform :=
  { cr3 := 0x1000
    hhdm := 0xFFFF800000000000
    direct := fun page => decide (page.toNat < 512)
    kernelPhysBase := 0x100000
    kernelVirtBase := 0xFFFFFFFF80000000
    ptScratch := 0xFFFFFFFF80004000
    cr3_word := by decide
    cr3_bound := by decide }

/-- One table at each level, at 4, 8, 12 and 16 KB: the direct map in pages of 4 KB. -/
def bootState : State :=
  { mem := fun a =>
      if a = address 1 256 then 0x2003
      else if a = address 2 0 then 0x3003
      else if a = address 3 0 then 0x4003
      else if frameOf a = 4 then ((slot a).setWidth 64 <<< 12) ||| 3
      else 0
    ptScratchUsed := 0
    stores := []
    handedOut := [] }

theorem shown_bootPlatform {f : Frame} (hf : f.toNat < 512) : Shown bootPlatform f := by
  intro i
  have hi := i.isLt
  have hhhdm : bootPlatform.hhdm.toNat = 0xFFFF800000000000 := rfl
  have hNat : (entryAt bootPlatform f i).toNat = 0xFFFF800000000000 + (address f i).toNat := by
    rw [entryAt, BitVec.toNat_add, toNat_address, hhhdm]
    omega
  refine ⟨?_, ?_, ?_⟩
  · rw [canonical_iff, hNat, toNat_address]
    omega
  · rw [entryAt_sub, toNat_address]
    omega
  · rw [entryAt_sub]
    refine decide_eq_true ?_
    rw [BitVec.toNat_ushiftRight, Nat.shiftRight_eq_div_pow, toNat_address]
    omega

/-- The upper tables have one entry each. -/
theorem view_bootState (i : Index) :
    view bootState 1 i = (if i = 256 then 0x2003 else 0) ∧
      view bootState 2 i = (if i = 0 then 0x3003 else 0) ∧
      view bootState 3 i = (if i = 0 then 0x4003 else 0) := by
  have hframe : ∀ f : Frame, frameOf (address f i) = f := by
    intro f
    have hi := i.isLt
    apply BitVec.eq_of_toNat_eq
    rw [toNat_frameOf, toNat_address]
    omega
  simp [view, bootState, address_inj, hframe]

theorem present_bootState {n : Frame} {i : Index} (hn : n = 1 ∨ n = 2 ∨ n = 3)
    (h : Present (view bootState n i)) :
    (n = 1 ∧ i = 256 ∧ view bootState n i = 0x2003) ∨
      (n = 2 ∧ i = 0 ∧ view bootState n i = 0x3003) ∨
      (n = 3 ∧ i = 0 ∧ view bootState n i = 0x4003) := by
  have hzero : ¬ Present 0 := by decide
  rcases view_bootState i with ⟨hpml4, hpdpt, hpd⟩
  rcases hn with rfl | rfl | rfl
  · by_cases hi : i = 256
    · rw [if_pos hi] at hpml4
      exact Or.inl ⟨rfl, hi, hpml4⟩
    · rw [hpml4, if_neg hi] at h
      exact absurd h hzero
  · by_cases hi : i = 0
    · rw [if_pos hi] at hpdpt
      exact Or.inr (Or.inl ⟨rfl, hi, hpdpt⟩)
    · rw [hpdpt, if_neg hi] at h
      exact absurd h hzero
  · by_cases hi : i = 0
    · rw [if_pos hi] at hpd
      exact Or.inr (Or.inr ⟨rfl, hi, hpd⟩)
    · rw [hpd, if_neg hi] at h
      exact absurd h hzero

theorem hwNext_bootState {n n' : Frame} {i : Index} (hn : n = 1 ∨ n = 2 ∨ n = 3)
    (h : hwNext (view bootState n i) = some n') :
    (n = 1 ∧ i = 256 ∧ n' = 2) ∨ (n = 2 ∧ i = 0 ∧ n' = 3) ∨ (n = 3 ∧ i = 0 ∧ n' = 4) := by
  have hpresent : Present (view bootState n i) := by
    by_contra habsent
    rw [hwNext_of_absent habsent] at h
    cases h
  rcases present_bootState hn hpresent with ⟨rfl, hi, he⟩ | ⟨rfl, hi, he⟩ | ⟨rfl, hi, he⟩
  · rw [he] at h
    exact Or.inl ⟨rfl, hi, (Option.some.inj h).symm⟩
  · rw [he] at h
    exact Or.inr (Or.inl ⟨rfl, hi, (Option.some.inj h).symm⟩)
  · rw [he] at h
    exact Or.inr (Or.inr ⟨rfl, hi, (Option.some.inj h).symm⟩)

/-- The one path to each table. -/
theorem follow_bootState {n : Frame} {p : List Index} (hp : p.length ≤ 3)
    (h : follow hwNext (view bootState) 1 p = some n) :
    (p = [] ∧ n = 1) ∨ (p = [256] ∧ n = 2) ∨ (p = [256, 0] ∧ n = 3) ∨
      (p = [256, 0, 0] ∧ n = 4) := by
  induction p using List.reverseRecOn generalizing n with
  | nil =>
      exact Or.inl ⟨rfl, (Option.some.inj h).symm⟩
  | append_singleton p i ih =>
      rw [List.length_append, List.length_singleton] at hp
      rw [follow_concat] at h
      rcases Option.bind_eq_some_iff.1 h with ⟨m, hm, hnext⟩
      -- The table before is one of the upper three, since the path to it is shorter.
      rcases ih (by omega) hm with ⟨rfl, rfl⟩ | ⟨rfl, rfl⟩ | ⟨rfl, rfl⟩ | ⟨rfl, -⟩
      · have hentry := hwNext_bootState (Or.inl rfl) hnext
        simpa using hentry
      · have hentry := hwNext_bootState (Or.inr (Or.inl rfl)) hnext
        simpa using hentry
      · have hentry := hwNext_bootState (Or.inr (Or.inr rfl)) hnext
        simpa using hentry
      · exact absurd hp (by decide)

theorem table_bootState {f : Frame}
    (h : Reached hwNext (view bootState) (hwFrame bootPlatform.cr3) 3 f) : f.toNat ≤ 4 := by
  rcases h with ⟨p, hp, hf⟩
  rcases follow_bootState hp hf with ⟨-, rfl⟩ | ⟨-, rfl⟩ | ⟨-, rfl⟩ | ⟨-, rfl⟩ <;> decide

theorem ready_bootState : Ready bootPlatform bootState where
  cr3_page := by decide
  hierarchy :=
    { tree := by
        intro p q n hp hq hpn hqn
        rcases follow_bootState hp hpn with ⟨rfl, rfl⟩ | ⟨rfl, rfl⟩ | ⟨rfl, rfl⟩ | ⟨rfl, rfl⟩ <;>
          simpa [eq_comm] using follow_bootState hq hqn
      clean := by
        intro p n i hp hn hpresent
        have hupper : n = 1 ∨ n = 2 ∨ n = 3 := by
          rcases follow_bootState (Nat.le_of_lt hp) hn with
            ⟨-, hn⟩ | ⟨-, hn⟩ | ⟨-, hn⟩ | ⟨rfl, -⟩
          · exact Or.inl hn
          · exact Or.inr (Or.inl hn)
          · exact Or.inr (Or.inr hn)
          · exact absurd hp (by decide)
        rcases present_bootState hupper hpresent with
          ⟨-, -, he⟩ | ⟨-, -, he⟩ | ⟨-, -, he⟩ <;> rw [he] <;> decide }
  fresh := by
    have hscratch : ∀ n, n < 4 → 4 < (scratchFrame bootPlatform n).toNat := by decide
    exact fun n _ hn hreached => Nat.not_lt.2 (table_bootState hreached) (hscratch n hn)
  shown := fun f hreached =>
    shown_bootPlatform (Nat.lt_of_le_of_lt (table_bootState hreached) (by decide))
  scratchShown := by
    have hscratch : ∀ n, n < 4 → (scratchFrame bootPlatform n).toNat < 512 := by decide
    exact fun n _ hn => shown_bootPlatform (hscratch n hn)

/-- The call of `_start`, the same page mapped elsewhere, and a page in the lower half; a page of
the direct map that no call is about stays where it is. -/
theorem mapPages_translate_boot :
    ∃ s', mapPages bootPlatform
        [(0xFFFF8000000B8000, 0xB8000), (0xFFFF8000000B8000, 0xA0000), (0x400000, 0xB8000)]
        bootState = .ok () s' ∧
      (∃ e, hwWalk bootPlatform (view s') 0xFFFF8000000B8123 = some ⟨e, 0xA0123⟩ ∧ Present e ∧
        Writable e) ∧
      (∃ e, hwWalk bootPlatform (view s') 0x400ABC = some ⟨e, 0xB8ABC⟩ ∧ Present e ∧
        Writable e) ∧
      hwWalk bootPlatform (view s') 0xFFFF800000005010 = some ⟨0x5003, 0x5010⟩ := by
  rcases mapPages_translate bootPlatform bootState
    [(0xFFFF8000000B8000, 0xB8000), (0xFFFF8000000B8000, 0xA0000), (0x400000, 0xB8000)]
    (by decide) ready_bootState (by decide) (by decide +kernel) with ⟨s', hruns, hwalk⟩
  exact ⟨s', hruns, (hwalk 0xFFFF8000000B8123).1 0xA0000 (by decide),
    (hwalk 0x400ABC).1 0xB8000 (by decide),
    ((hwalk 0xFFFF800000005010).2 (by decide)).trans (by decide +kernel)⟩

end Paging
end Feudos
