import Feudos.Keyboard.Wrapping

/-!
# Editing a line

`kbd_buf_pop` does not know where the line being typed begins: a backspace on an empty line takes
the newline of the line before it.  `readline_edits_iff` says that this is the only way to leave the
line: the edited line is read, and the text before it kept, if and only if no backspace was typed
on an empty line, or nothing precedes the line in the buffer.
-/

namespace Feudos

open Vga GuardedRun

/-- The character, if it is one, is stored without going back to the start of the array. -/
def NoWrap (b : KbdBuffer) (c : UInt8) : Prop := c = 8 ∨ b.pos ≠ kbdBufSize - 1

instance (b : KbdBuffer) (c : UInt8) : Decidable (NoWrap b c) :=
  inferInstanceAs (Decidable (_ ∨ _))

/-- A backspace has a character of the line to erase. -/
def ErasesOwn (line : List UInt8) (c : UInt8) : Prop := c = 8 → line ≠ []

/-- A key that edits a line: a printable character or backspace. -/
def EditKey (c : UInt8) : Prop := Printable c ∨ c = 8

theorem EditKey.ne {c d : UInt8} (hc : EditKey c) (hd : d.toNat < 32) (h8 : d ≠ 8) : c ≠ d := by
  rcases hc with hprint | hback
  · exact hprint.ne hd
  · rw [hback]
    exact h8.symm

/-! ## Keeping to the line -/

theorem keepsTo_of_noWrap {past : Nat → UInt8} {b₀ b : KbdBuffer} {line : List UInt8} {c : UInt8}
    (hb : b.Ok past) (h : Holds b₀ line b) (hwrap : NoWrap b c)
    (herase : b₀.pos = 0 ∨ ErasesOwn line c) : KeepsTo b₀.pos line c := by
  unfold KeepsTo
  by_cases h8 : c = 8
  · rw [if_pos h8]
    rcases herase with hzero | hown
    · exact Or.inr hzero
    · exact Or.inl (hown h8)
  · have hroom := hwrap.resolve_left h8
    have hpos := h.pos
    have hle := hb.pos_le
    rw [if_neg h8]
    omega

/-- Keys that erase only their own characters keep to the line, when the buffer does not wrap. -/
theorem guarded_editsLine {past : Nat → UInt8} {b₀ b : KbdBuffer} {line cs : List UInt8}
    (hb : b.Ok past) (h : Holds b₀ line b) (hkeys : ∀ c ∈ cs, EditKey c)
    (hwrap : Guarded kbdBufferPush NoWrap b cs)
    (herase : b₀.pos = 0 ∨ Guarded editLine ErasesOwn line cs) :
    Guarded editLine (EditsLine b₀.pos) line cs := by
  induction cs generalizing b line with
  | nil =>
      exact guarded_nil line
  | cons c cs ih =>
      have hc := hkeys c (List.mem_cons_self ..)
      have hkeep := keepsTo_of_noWrap hb h hwrap.1 (herase.imp id And.left)
      refine ⟨⟨hc.ne (by decide) (by decide), hkeep⟩, ?_⟩
      exact ih (kbdBufferPush_ok hb (hc.ne (by decide) (by decide))) (push_holds h hkeep)
        (fun d hd => hkeys d (List.mem_cons_of_mem _ hd)) hwrap.2 (herase.imp id And.right)

/-! ## Leaving the line -/

/-- Text before the line has been taken: `pos` has fallen behind the edited line, and what lies
between it and the start of the line is erased. -/
structure Eaten (b₀ : KbdBuffer) (line : List UInt8) (b : KbdBuffer) : Prop where
  behind : b.pos < b₀.pos + line.length
  erased : ∀ i, b.pos ≤ i → i < b₀.pos → b.buf.get i = 0

theorem push_eaten {b₀ b : KbdBuffer} {line : List UInt8} {c : UInt8} (hstart : 0 < b₀.pos)
    (hwrap : NoWrap b c) (h : Eaten b₀ line b) :
    Eaten b₀ (editLine line c) (kbdBufferPush b c) := by
  have hbehind := h.behind
  unfold editLine
  by_cases h8 : c = 8
  · subst h8
    rw [if_pos rfl]
    by_cases h0 : b.pos = 0
    · rw [kbdBufferPush_nothing h0]
      exact ⟨by omega, h.erased⟩
    · rcases kbdBufferPush_erases h0 with ⟨hpos, hget⟩
      refine ⟨by rw [hpos, List.length_dropLast]; omega, ?_⟩
      intro i hle hlt
      rw [hget]
      by_cases hnow : i = b.pos - 1
      · rw [if_pos hnow]
      · rw [if_neg hnow]
        exact h.erased i (by omega) hlt
  · -- A character moves `pos` and the end of the line alike.
    rcases kbdBufferPush_appends h8 (hwrap.resolve_left h8) with ⟨hpos, hget⟩
    rw [if_neg h8]
    refine ⟨by rw [hpos, List.length_append, List.length_singleton]; omega, ?_⟩
    intro i hle hlt
    rw [hget, if_neg (by omega)]
    exact h.erased i (by omega) hlt

/-- The first backspace on an empty line takes text, and it stays taken. -/
theorem foldl_eaten {b₀ b : KbdBuffer} {line cs : List UInt8} (hstart : 0 < b₀.pos)
    (hwrap : Guarded kbdBufferPush NoWrap b cs) (h : Eaten b₀ line b) :
    Eaten b₀ (cs.foldl editLine line) (cs.foldl kbdBufferPush b) := by
  induction cs generalizing b line with
  | nil =>
      exact h
  | cons c cs ih =>
      exact ih hwrap.2 (push_eaten hstart hwrap.1 h)

theorem not_guarded_eaten {past : Nat → UInt8} {b₀ b : KbdBuffer} {line cs : List UInt8}
    (hstart : 0 < b₀.pos) (hb : b.Ok past) (h : Holds b₀ line b) (hkeys : ∀ c ∈ cs, EditKey c)
    (hwrap : Guarded kbdBufferPush NoWrap b cs) (hbad : ¬ Guarded editLine ErasesOwn line cs) :
    Eaten b₀ (cs.foldl editLine line) (cs.foldl kbdBufferPush b) := by
  induction cs generalizing b line with
  | nil =>
      exact absurd trivial hbad
  | cons c cs ih =>
      have hc := hkeys c (List.mem_cons_self ..)
      by_cases hown : ErasesOwn line c
      · have hkeep := keepsTo_of_noWrap hb h hwrap.1 (Or.inr hown)
        exact ih (kbdBufferPush_ok hb (hc.ne (by decide) (by decide))) (push_holds h hkeep)
          (fun d hd => hkeys d (List.mem_cons_of_mem _ hd)) hwrap.2 (fun hg => hbad ⟨hown, hg⟩)
      · have hempty : c = 8 ∧ line = [] := by simpa [ErasesOwn] using hown
        rcases hempty with ⟨rfl, rfl⟩
        have hsame : b.pos = b₀.pos := h.pos
        rcases kbdBufferPush_erases (b := b) (by omega) with ⟨hpos, hget⟩
        -- The first byte taken is the one before the line.
        have hfirst : Eaten b₀ (editLine [] 8) (kbdBufferPush b 8) := by
          refine ⟨by rw [hpos, hsame]; exact Nat.sub_lt hstart Nat.one_pos, ?_⟩
          intro i hle hlt
          rw [hget, if_pos (by omega)]
        exact foldl_eaten (b := kbdBufferPush b 8) hstart hwrap.2 hfirst

/-! ## What a call has consumed -/

/-- Pushes depend on `pos` and the bytes only. -/
theorem foldl_push_congr {b b' : KbdBuffer} (cs : List UInt8)
    (h : b'.pos = b.pos ∧ b'.buf.get = b.buf.get) :
    (cs.foldl kbdBufferPush b').pos = (cs.foldl kbdBufferPush b).pos ∧
      (cs.foldl kbdBufferPush b').buf.get = (cs.foldl kbdBufferPush b).buf.get := by
  induction cs generalizing b b' with
  | nil =>
      exact h
  | cons c cs ih =>
      apply ih
      rcases h with ⟨hpos, hget⟩
      by_cases h8 : c = 8
      · subst h8
        by_cases h0 : b.pos = 0
        · rw [kbdBufferPush_nothing h0, kbdBufferPush_nothing (hpos.trans h0)]
          exact ⟨hpos, hget⟩
        · have h0' : b'.pos ≠ 0 := hpos ▸ h0
          rcases kbdBufferPush_erases h0 with ⟨hnext, hbytes⟩
          rcases kbdBufferPush_erases h0' with ⟨hnext', hbytes'⟩
          refine ⟨by rw [hnext, hnext', hpos], funext fun i => ?_⟩
          rw [hbytes, hbytes', hpos, hget]
      · rcases kbdBufferPush_stores b h8 with ⟨hnext, hbytes⟩
        rcases kbdBufferPush_stores b' h8 with ⟨hnext', hbytes'⟩
        refine ⟨by rw [hnext, hnext', hpos], funext fun i => ?_⟩
        rw [hbytes, hbytes', hpos, hget]

theorem readlineWait_length {k k' : Kernel} {startPos : Nat} {wakes rest : List (List UInt8)}
    (h : readlineWait k startPos wakes = some (k', rest)) : rest.length < wakes.length := by
  induction wakes generalizing k with
  | nil =>
      cases h
  | cons scs wakes ih =>
      rw [readlineWait] at h
      split at h
      · cases h
        exact Nat.lt_succ_self _
      · exact Nat.lt_succ_of_lt (ih h)

/-- A call that returns at the last of `scs` has seen all of them, and `pos` has moved. -/
theorem readlineWait_consumed {k k' : Kernel} {startPos : Nat} {scs : List UInt8}
    {later : List (List UInt8)} (hne : scs ≠ [])
    (h : readlineWait k startPos (eachKey scs ++ later) = some (k', later)) :
    k'.kbdBuf.pos = ((typed k.shiftHeld scs).foldl kbdBufferPush k.kbdBuf).pos ∧
      k'.kbdBuf.buf.get = ((typed k.shiftHeld scs).foldl kbdBufferPush k.kbdBuf).buf.get ∧
      k'.kbdBuf.pos ≠ startPos := by
  induction scs generalizing k with
  | nil =>
      exact absurd rfl hne
  | cons sc scs ih =>
      have hkey : (kbdHandleScancode k sc).kbdBuf =
          (decode k.shiftHeld sc).toList.foldl kbdBufferPush k.kbdBuf :=
        kbdHandleScancode_kbdBuf k sc
      rw [eachKey, List.map_cons, List.cons_append, readlineWait_key] at h
      rw [typed, List.foldl_append, ← hkey]
      by_cases htest : (readlineTest (kbdHandleScancode k sc).kbdBuf startPos).1 = true
      · -- The call ends here, so this was the last key.
        rw [if_pos htest, Option.some.injEq, Prod.mk.injEq] at h
        rcases h with ⟨rfl, hrest⟩
        have hnil : scs = [] := by
          have hlen := congrArg List.length hrest
          simp only [List.length_append, List.length_map] at hlen
          exact List.length_eq_zero_iff.1 (by omega)
        subst hnil
        refine ⟨readlineTest_pos _ _, readlineTest_get _ _, ?_⟩
        intro hstay
        have hsame : (kbdHandleScancode k sc).kbdBuf.pos = startPos := by
          simpa [testedKey] using hstay
        simp [readlineTest, hsame] at htest
      · -- The call goes on, and cannot end later without another key.
        rw [if_neg htest] at h
        have hmore : scs ≠ [] := by
          intro hnil
          subst hnil
          exact absurd (readlineWait_length h) (by simp)
        have hrest := ih hmore h
        have hcongr := foldl_push_congr (typed (shiftAfter k.shiftHeld sc) scs)
          ⟨readlineTest_pos (kbdHandleScancode k sc).kbdBuf startPos,
            readlineTest_get (kbdHandleScancode k sc).kbdBuf startPos⟩
        rw [testedKey_shiftHeld] at hrest
        exact ⟨hrest.1.trans hcongr.1, hrest.2.1.trans hcongr.2, hrest.2.2⟩

/-! ## Reading the edited line -/

/-- A call cannot deliver the edited line once text before it was taken, and leave that text as it
was. -/
theorem Eaten.not_delivered {past : Nat → UInt8} {k k' : Kernel} {text : List UInt8}
    (hk : k.kbdBuf.Ok past) (h : Eaten k.kbdBuf text k'.kbdBuf)
    (hmoved : k'.kbdBuf.pos ≠ k.kbdBuf.pos) (hfits : text.length < 128) (buf : Buffer)
    (hdelivers : Delivers (readlineCopy k' buf 128 k.kbdBuf.pos) text)
    (hbefore : ∀ i, i < k.kbdBuf.pos → k'.kbdBuf.buf.get i = k.kbdBuf.buf.get i) : False := by
  rcases Nat.lt_or_gt_of_ne hmoved with hbelow | habove
  · -- `pos` is below the line: the byte there was erased, and it was not NUL before.
    have hzero := h.erased k'.kbdBuf.pos (Nat.le_refl _) hbelow
    rw [hbefore _ hbelow] at hzero
    exact hk.below _ hbelow hzero
  · -- `pos` is within the line: the call delivers too few bytes.
    have hbehind := h.behind
    have hpos : k'.kbdBuf.pos = k.kbdBuf.pos + (k'.kbdBuf.pos - k.kbdBuf.pos) := by omega
    have hlen : (readlineCopy k' buf 128 k.kbdBuf.pos).len = k'.kbdBuf.pos - k.kbdBuf.pos :=
      copyLen_eq hpos (by omega) (by omega)
    have hsame : k'.kbdBuf.pos - k.kbdBuf.pos = text.length := by
      calc
        k'.kbdBuf.pos - k.kbdBuf.pos
            = (readlineCopy k' buf 128 k.kbdBuf.pos).len := hlen.symm
        _ = text.length := hdelivers.len
    omega

/-- What was delivered and what was kept show that no backspace took text before the line. -/
theorem erasesOwn_of_delivered {past : Nat → UInt8} {k : Kernel} {scs : List UInt8} {enter : UInt8}
    {later : List (List UInt8)} {buf : Buffer} {r : LineRead} (hok : k.kbdBuf.Ok past)
    (hstart : k.kbdBuf.pos ≠ 0) (hkeys : ∀ c ∈ typed k.shiftHeld scs, EditKey c)
    (henter : decode (scs.foldl shiftAfter k.shiftHeld) enter = some 10)
    (hwrap : Guarded kbdBufferPush NoWrap k.kbdBuf (typed k.shiftHeld scs))
    (hwrapEnter : NoWrap ((typed k.shiftHeld scs).foldl kbdBufferPush k.kbdBuf) 10)
    (hlen : ((typed k.shiftHeld scs).foldl editLine []).length ≤ 126)
    (hread : kbdReadline k buf 128 (eachKey scs ++ [enter] :: later) = some (r, later))
    (hdelivers : Delivers r ((typed k.shiftHeld scs).foldl editLine [] ++ [10]))
    (hbefore : ∀ i, i < k.kbdBuf.pos → r.kernel.kbdBuf.buf.get i = k.kbdBuf.buf.get i) :
    Guarded editLine ErasesOwn [] (typed k.shiftHeld scs) := by
  by_contra hbad
  have htaken := push_eaten (c := 10) (Nat.pos_of_ne_zero hstart) hwrapEnter
    (not_guarded_eaten (Nat.pos_of_ne_zero hstart) hok (holds_nil k.kbdBuf) hkeys hwrap hbad)
  -- The call has seen every key, up to the Enter.
  have hwakes : eachKey scs ++ [enter] :: later = eachKey (scs ++ [enter]) ++ later := by
    simp [eachKey]
  rw [kbdReadline, hwakes, Option.map_eq_some_iff] at hread
  rcases hread with ⟨⟨k', rest⟩, hwait, hEq⟩
  rw [Prod.mk.injEq] at hEq
  rcases hEq with ⟨rfl, rfl⟩
  have htypedAll : typed k.shiftHeld (scs ++ [enter]) = typed k.shiftHeld scs ++ [10] := by
    rw [typed_append, typed, henter]
    rfl
  rcases readlineWait_consumed (by simp) hwait with ⟨hpos, hget, hmoved⟩
  rw [htypedAll, List.foldl_append] at hpos hget
  -- So the buffer at the return is the one that has lost text before the line.
  have heaten : Eaten k.kbdBuf ((typed k.shiftHeld scs).foldl editLine [] ++ [10]) k'.kbdBuf := by
    refine ⟨by rw [hpos]; exact htaken.behind, ?_⟩
    intro i hle hlt
    rw [hget]
    exact htaken.erased i (hpos.symm.le.trans hle) hlt
  refine heaten.not_delivered hok hmoved ?_ buf hdelivers ?_
  · rw [List.length_append, List.length_singleton]
    omega
  · intro i hi
    rw [← hbefore i hi, readlineCopy_kbdBuf]

/-- From every buffer that keys can lead to, printable keys and backspaces and then Enter, without a
wrap: the call returns at that Enter with the edited line, and the text before it is kept, if and
only if nothing precedes the line or no backspace was typed on an empty line. -/
theorem readline_edits_iff (past : Nat → UInt8) (k : Kernel) (hk : k.kbdBuf.Reachable past)
    (scs : List UInt8) (enter : UInt8) (later : List (List UInt8)) (buf : Buffer)
    (hkeys : ∀ c ∈ typed k.shiftHeld scs, EditKey c)
    (henter : decode (scs.foldl shiftAfter k.shiftHeld) enter = some 10)
    (hwrap : Guarded kbdBufferPush NoWrap k.kbdBuf (typed k.shiftHeld scs ++ [10]))
    (hlen : ((typed k.shiftHeld scs).foldl editLine []).length ≤ 126) :
    (∃ r, kbdReadline k buf 128 (eachKey scs ++ [enter] :: later) = some (r, later) ∧
        Delivers r ((typed k.shiftHeld scs).foldl editLine [] ++ [10]) ∧
        ∀ i, i < k.kbdBuf.pos → r.kernel.kbdBuf.buf.get i = k.kbdBuf.buf.get i) ↔
      k.kbdBuf.pos = 0 ∨ Guarded editLine ErasesOwn [] (typed k.shiftHeld scs) := by
  have hok := hk.ok
  rw [guarded_append] at hwrap
  rcases hwrap with ⟨hwrap, hwrapEnter⟩
  constructor
  · rintro ⟨r, hread, hdelivers, hbefore⟩
    by_cases hstart : k.kbdBuf.pos = 0
    · exact Or.inl hstart
    · exact Or.inr (erasesOwn_of_delivered hok hstart hkeys henter hwrap hwrapEnter.1 hlen hread
        hdelivers hbefore)
  · intro herase
    have hguard := guarded_editsLine hok (holds_nil k.kbdBuf) hkeys hwrap herase
    have hholds := foldl_holds (holds_nil k.kbdBuf) (hguard.imp (fun _ _ h => h.2))
    have hend : ((typed k.shiftHeld scs).foldl kbdBufferPush k.kbdBuf).Ok past :=
      foldl_push_ok hok (fun c hc => (hkeys c hc).ne (by decide) (by decide))
    -- The Enter does not wrap either, so there is room for the newline.
    have hroom := hwrapEnter.1.resolve_left (by decide)
    have hpos := hholds.pos
    have hle := hend.pos_le
    exact kbdReadline_returns buf later hguard rfl henter (by omega) (by omega)

/-- After the line `a`: `b`, backspace, `c`, Enter. -/
theorem readline_edits_iff_second :
    let k := [0x1E, 0x1C].foldl kbdHandleScancode
      (Kernel.boot (fun _ => 0) (started vga640 (fun _ => 0) 0x0F))
    let scs := [0x30, 0x0E, 0x2E]
    (∃ r, kbdReadline k (Buffer.fresh (fun _ => 0)) 128 (eachKey scs ++ [0x1C] :: []) =
          some (r, []) ∧
        Delivers r ((typed k.shiftHeld scs).foldl editLine [] ++ [10]) ∧
        ∀ i, i < k.kbdBuf.pos → r.kernel.kbdBuf.buf.get i = k.kbdBuf.buf.get i) ↔
      k.kbdBuf.pos = 0 ∨ Guarded editLine ErasesOwn [] (typed k.shiftHeld scs) :=
  readline_edits_iff (fun _ => 0) _ (foldl_reachable [0x1E, 0x1C] .boot) [0x30, 0x0E, 0x2E] 0x1C []
    _ (by unfold EditKey Printable; decide +kernel) (by decide +kernel) (by decide +kernel)
    (by decide +kernel)

/-- After the line `a`: backspace, `b`, Enter.  The newline of the first line is erased, and the
call delivers an empty line instead of `b`. -/
theorem backspace_takes_newline :
    let k := [0x1E, 0x1C].foldl kbdHandleScancode
      (Kernel.boot (fun _ => 0) (started vga640 (fun _ => 0) 0x0F))
    typed k.shiftHeld [0x0E, 0x30] = [8] ++ bytes "b" ∧
      (typed k.shiftHeld [0x0E, 0x30]).foldl editLine [] = bytes "b" ∧
      (kbdReadline k (Buffer.fresh (fun _ => 0)) 128 [[0x0E], [0x30], [0x1C]]).map
          (fun x => (x.1.len, x.1.line.slice 0 x.1.len, x.1.kernel.kbdBuf.buf.slice 0 3, x.2)) =
        some (1, [10], bytes "ab" ++ [10], []) := by
  decide +kernel

end Feudos
