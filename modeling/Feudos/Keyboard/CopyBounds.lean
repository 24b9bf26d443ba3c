import Feudos.Keyboard.Wrapping

/-!
# The bounds of reading a line

`kbd_readline(line, 128)` copies from `start_pos` on as many bytes as `pos` has moved, in unsigned
arithmetic, and `ksh_run` then cuts the last of them.

- `kbdReadlineLate`    : the call, with scancodes that arrive behind its last test;
- `nextPos`            : `pos` after a character;
- `CopyInBounds`       : what the call reads and writes is inside the two arrays;
- `copy_inBounds_iff`  : it is, unless the position at the end is the one at the start, or below it
  while fewer than 127 bytes are left behind the start.
-/

namespace Feudos

open Vga CountedLoop

/-! ## Accesses of `kmemcpy` -/

theorem kmemcpy_trace (dst src : Buffer) (start n : Nat) :
    (kmemcpy dst src start n).2.reads =
        ((List.range n).map (fun i => start + i)).reverse ++ src.reads ∧
      (kmemcpy dst src start n).1.writes = (List.range n).reverse ++ dst.writes := by
  refine range_induction 0 n _ (dst, src)
    (fun m x => x.2.reads = ((List.range m).map (fun i => start + i)).reverse ++ src.reads ∧
      x.1.writes = (List.range m).reverse ++ dst.writes)
    (Nat.zero_le n) ⟨rfl, rfl⟩ ?_
  rintro m x - - ⟨hreads, hwrites⟩
  simp [Buffer.read, Buffer.write, hreads, hwrites, List.range_succ]

/-! ## The call -/

/-- `kbd_readline(line, 128)`, with the scancodes `late` handled between its last test and the
computation of the length: the kernel then, what the call leaves, and the wakes not used.  The
source reads `kbd_buf.pos` for both; a compiler may make one load of them, and then `late` is
empty. -/
def kbdReadlineLate (k : Kernel) (line : Buffer) (wakes : List (List UInt8)) (late : List UInt8) :
    Option (Kernel × LineRead × List (List UInt8)) :=
  (readlineWait k k.kbdBuf.pos wakes).map (fun x =>
    let before := late.foldl kbdHandleScancode x.1
    (before, readlineCopy before line 128 k.kbdBuf.pos, x.2))

/-- `line[len - 1] = '\0'` in `ksh_run`. -/
def cutNewline (r : LineRead) : Buffer :=
  r.line.write (u64 (r.len + 2 ^ 64 - 1)) 0

/-- Without late scancodes the call is `kbd_readline`. -/
theorem kbdReadlineLate_nil (k : Kernel) (line : Buffer) (wakes : List (List UInt8)) :
    (kbdReadlineLate k line wakes []).map (fun x => x.2) = kbdReadline k line 128 wakes := by
  rw [kbdReadlineLate, kbdReadline, Option.map_map]
  rfl

/-- The bytes copied lie in `kbd_buf.buf`, the bytes of `line` written by the copy, the terminator
and the cut lie in `line`, and the length is one of a line with its newline. -/
structure CopyInBounds (before : Kernel) (r : LineRead) : Prop where
  reads : ∃ copied, r.kernel.kbdBuf.buf.reads = copied ++ before.kbdBuf.buf.reads ∧
    ∀ i ∈ copied, i < kbdBufSize
  writes : ∀ i ∈ (cutNewline r).writes, i < 128
  len : 1 ≤ r.len ∧ r.len ≤ 127

@[simp] theorem readlineCopy_len (k : Kernel) (line : Buffer) (max startPos : Nat) :
    (readlineCopy k line max startPos).len = copyLen k.kbdBuf.pos startPos max := rfl

theorem readlineCopy_reads (k : Kernel) (line : Buffer) (max startPos : Nat) :
    (readlineCopy k line max startPos).kernel.kbdBuf.buf.reads =
      ((List.range (copyLen k.kbdBuf.pos startPos max)).map (fun i => startPos + i)).reverse ++
        k.kbdBuf.buf.reads :=
  (kmemcpy_trace line k.kbdBuf.buf startPos (copyLen k.kbdBuf.pos startPos max)).1

theorem readlineCopy_writes (k : Kernel) (line : Buffer) (max startPos : Nat) :
    (readlineCopy k line max startPos).line.writes =
      copyLen k.kbdBuf.pos startPos max ::
        ((List.range (copyLen k.kbdBuf.pos startPos max)).reverse ++ line.writes) := by
  show copyLen k.kbdBuf.pos startPos max ::
    (kmemcpy line k.kbdBuf.buf startPos (copyLen k.kbdBuf.pos startPos max)).1.writes = _
  rw [(kmemcpy_trace line k.kbdBuf.buf startPos (copyLen k.kbdBuf.pos startPos max)).2]

theorem cutNewline_writes (r : LineRead) :
    (cutNewline r).writes = u64 (r.len + 2 ^ 64 - 1) :: r.line.writes := rfl

/-- It only depends on the number of bytes copied. -/
theorem copyInBounds_iff_copyLen (before : Kernel) (get : Nat → UInt8) (startPos : Nat) :
    CopyInBounds before (readlineCopy before (Buffer.fresh get) 128 startPos) ↔
      (1 ≤ copyLen before.kbdBuf.pos startPos 128 ∧ copyLen before.kbdBuf.pos startPos 128 ≤ 127) ∧
        startPos + copyLen before.kbdBuf.pos startPos 128 ≤ kbdBufSize := by
  have hreads := readlineCopy_reads before (Buffer.fresh get) 128 startPos
  have hwrites := cutNewline_writes (readlineCopy before (Buffer.fresh get) 128 startPos)
  rw [readlineCopy_writes, readlineCopy_len] at hwrites
  generalize hn : copyLen before.kbdBuf.pos startPos 128 = n at hreads hwrites ⊢
  constructor
  · rintro ⟨⟨copied, hcopied, hin⟩, -, hlen⟩
    rw [readlineCopy_len, hn] at hlen
    -- The last byte copied lies in the array.
    obtain rfl := List.append_cancel_right (hcopied.symm.trans hreads)
    have hlast : startPos + (n - 1) < kbdBufSize := by
      refine hin _ (List.mem_reverse.2 (List.mem_map.2 ⟨n - 1, List.mem_range.2 ?_, rfl⟩))
      exact Nat.sub_lt hlen.1 Nat.one_pos
    exact ⟨hlen, by omega⟩
  · rintro ⟨hlen, hfits⟩
    refine ⟨⟨_, hreads, fun i hi => ?_⟩, fun i hi => ?_, by rwa [readlineCopy_len, hn]⟩
    · obtain ⟨j, hj, rfl⟩ := List.mem_map.1 (List.mem_reverse.1 hi)
      have hlt := List.mem_range.1 hj
      omega
    · -- The cut, the terminator, and the bytes copied.
      have hcut : u64 (n + 2 ^ 64 - 1) < 128 := by
        unfold u64
        omega
      rw [hwrites, List.mem_cons, List.mem_cons, List.mem_append, List.mem_reverse,
        List.mem_range] at hi
      rcases hi with hEq | hEq | hlt | hfresh
      · rw [hEq]
        exact hcut
      · omega
      · omega
      · exact absurd hfresh List.not_mem_nil

/-! ## Where the position goes -/

/-- `pos` after a character. -/
def nextPos (pos : Nat) (c : UInt8) : Nat :=
  if c = 8 then pos - 1 else (if pos = kbdBufSize - 1 then 0 else pos) + 1

theorem kbdBufferPush_pos (b : KbdBuffer) (c : UInt8) :
    (kbdBufferPush b c).pos = nextPos b.pos c := by
  unfold nextPos
  by_cases h8 : c = 8
  · subst h8
    by_cases h0 : b.pos = 0
    · rw [kbdBufferPush_nothing h0, h0]
      rfl
    · exact (kbdBufferPush_erases h0).1
  · rw [if_neg h8]
    exact (kbdBufferPush_stores b h8).1

theorem foldl_pos (k : Kernel) (scs : List UInt8) :
    (scs.foldl kbdHandleScancode k).kbdBuf.pos =
      (typed k.shiftHeld scs).foldl nextPos k.kbdBuf.pos := by
  rw [foldl_kbdBuf]
  generalize typed k.shiftHeld scs = cs
  generalize k.kbdBuf = b
  induction cs generalizing b with
  | nil =>
      rfl
  | cons c cs ih =>
      rw [List.foldl_cons, ih, kbdBufferPush_pos, List.foldl_cons]

/-- What the keys look at: the position and the shift state. -/
def SameKeys (k k' : Kernel) : Prop :=
  k'.kbdBuf.pos = k.kbdBuf.pos ∧ k'.shiftHeld = k.shiftHeld

theorem SameKeys.foldl {k k' : Kernel} (h : SameKeys k k') (scs : List UInt8) :
    SameKeys (scs.foldl kbdHandleScancode k) (scs.foldl kbdHandleScancode k') := by
  rw [SameKeys, foldl_pos, foldl_pos, foldl_shiftHeld, foldl_shiftHeld, h.1, h.2]
  exact ⟨rfl, rfl⟩

/-- The wait handles the scancodes of the wakes it uses; the tests between them change nothing
that the keys look at. -/
theorem readlineWait_sameKeys {k k' : Kernel} {startPos : Nat} {wakes rest : List (List UInt8)}
    (h : readlineWait k startPos wakes = some (k', rest)) :
    ∃ used, wakes = used ++ rest ∧ SameKeys (used.flatten.foldl kbdHandleScancode k) k' := by
  induction wakes generalizing k with
  | nil =>
      cases h
  | cons scs wakes ih =>
      have htested : SameKeys (scs.foldl kbdHandleScancode k)
          { scs.foldl kbdHandleScancode k with
            kbdBuf := (readlineTest (scs.foldl kbdHandleScancode k).kbdBuf startPos).2 } :=
        ⟨readlineTest_pos _ _, rfl⟩
      rw [readlineWait] at h
      by_cases hexit : (readlineTest (scs.foldl kbdHandleScancode k).kbdBuf startPos).1 = true
      · simp only [if_pos hexit, Option.some.injEq, Prod.mk.injEq] at h
        rcases h with ⟨rfl, rfl⟩
        exact ⟨[scs], rfl, by simpa using htested⟩
      · -- The call goes on waiting, from a state that has been tested.
        simp only [if_neg hexit] at h
        obtain ⟨used, rfl, hused⟩ := ih h
        refine ⟨scs :: used, rfl, ?_⟩
        have hrest := htested.foldl used.flatten
        rw [List.flatten_cons, List.foldl_append]
        exact ⟨hused.1.trans hrest.1, hused.2.trans hrest.2⟩

/-- The position at which the length is computed, from the characters typed during the call. -/
theorem kbdReadlineLate_spec {k before : Kernel} {line : Buffer}
    {wakes rest : List (List UInt8)} {late : List UInt8} {r : LineRead}
    (h : kbdReadlineLate k line (wakes ++ rest) late = some (before, r, rest)) :
    before.kbdBuf.pos =
        (typed k.shiftHeld (wakes.flatten ++ late)).foldl nextPos k.kbdBuf.pos ∧
      r = readlineCopy before line 128 k.kbdBuf.pos := by
  rw [kbdReadlineLate, Option.map_eq_some_iff] at h
  obtain ⟨⟨k', rest'⟩, hwait, hEq⟩ := h
  simp only [Prod.mk.injEq] at hEq
  rcases hEq with ⟨rfl, rfl, rfl⟩
  obtain ⟨used, hused, hkeys⟩ := readlineWait_sameKeys hwait
  obtain rfl := List.append_cancel_right hused
  refine ⟨?_, rfl⟩
  rw [(hkeys.foldl late).1, ← List.foldl_append, foldl_pos]

/-! ## The bounds -/

theorem nextPos_le {pos : Nat} (h : pos ≤ kbdBufSize - 1) (c : UInt8) :
    nextPos pos c ≤ kbdBufSize - 1 := by
  have hsize : kbdBufSize - 1 = 2047 := rfl
  unfold nextPos
  rw [hsize] at h ⊢
  split
  · omega
  · split <;> omega

/-- Whatever was typed before and during the call, and whenever the exit condition was tested: the
call and the cut stay inside the two arrays exactly when the position at the end is above the one at
the start, or below it with at least 127 bytes of the array behind the start. -/
theorem copy_inBounds_iff (past : Nat → UInt8) (k before : Kernel) (get : Nat → UInt8)
    (wakes rest : List (List UInt8)) (late : List UInt8) (r : LineRead)
    (hk : k.kbdBuf.Reachable past)
    (hcall : kbdReadlineLate k (Buffer.fresh get) (wakes ++ rest) late = some (before, r, rest)) :
    CopyInBounds before r ↔
      (typed k.shiftHeld (wakes.flatten ++ late)).foldl nextPos k.kbdBuf.pos ≠ k.kbdBuf.pos ∧
        (k.kbdBuf.pos < (typed k.shiftHeld (wakes.flatten ++ late)).foldl nextPos k.kbdBuf.pos ∨
          k.kbdBuf.pos + 127 ≤ kbdBufSize) := by
  obtain ⟨hpos, rfl⟩ := kbdReadlineLate_spec hcall
  have hstart := hk.ok.pos_le
  have hend : before.kbdBuf.pos ≤ kbdBufSize - 1 := by
    rw [hpos]
    exact GuardedRun.foldl_invariant (I := fun pos => pos ≤ kbdBufSize - 1)
      (fun pos c h => nextPos_le h c) hstart
  rw [← hpos, copyInBounds_iff_copyLen, copyLen_cases hend hstart]
  have hsize : kbdBufSize = 2048 := rfl
  rw [hsize] at hstart hend ⊢
  split
  · omega
  · split <;> omega

/-- At the first prompt of a session: `b`, Enter. -/
theorem copy_inBounds_iff_boot :
    ∃ before r, kbdReadlineLate (Kernel.boot (fun _ => 0) (started vga640 (fun _ => 0) 0x0F))
        (Buffer.fresh (fun _ => 0)) ([[0x30], [0x1C]] ++ []) [] = some (before, r, []) ∧
      CopyInBounds before r := by
  refine ⟨_, _, rfl, ?_⟩
  exact (copy_inBounds_iff (fun _ => 0)
    (Kernel.boot (fun _ => 0) (started vga640 (fun _ => 0) 0x0F)) _ (fun _ => 0)
    [[0x30], [0x1C]] [] [] _ .boot rfl).2 (by decide)

/-- With 2046 keys typed before, the line `b` is copied from index 2046 on, to index 2172. -/
theorem wrapped_copy_reads_behind :
    (afterKeys 2046).kbdBuf.Reachable (fun _ => 0) ∧
      ∃ before r, kbdReadlineLate (afterKeys 2046) (Buffer.fresh (fun _ => 0)) [[0x30], [0x1C]] [] =
          some (before, r, []) ∧
        ¬ CopyInBounds before r := by
  have hpos : (afterKeys 2046).kbdBuf.pos = 2046 := afterKeys_pos (by decide)
  have hshift := afterKeys_shiftHeld 2046
  have hok := (afterKeys_reachable 2046).ok
  have htyped : typed (afterKeys 2046).shiftHeld [0x30] = bytes "b" := by
    rw [hshift]
    decide
  have henter : decode ([0x30].foldl shiftAfter (afterKeys 2046).shiftHeld) 0x1C = some 10 := by
    rw [hshift]
    decide
  rcases kbdReadline_wrapped (Buffer.fresh (fun _ => 0)) []
    hok.pos_le hok.last (by rw [htyped]; decide) (by rw [htyped]; decide) henter
    (by rw [htyped, hpos]; decide) with ⟨r, hread, hlen, -⟩
  rw [← kbdReadlineLate_nil, Option.map_eq_some_iff] at hread
  obtain ⟨⟨before, r', rest⟩, hcall, hEq⟩ := hread
  simp only [Prod.mk.injEq] at hEq
  rcases hEq with ⟨rfl, rfl⟩
  refine ⟨afterKeys_reachable 2046, before, r', hcall, fun hin => ?_⟩
  -- 127 bytes are copied, but only two are left behind the start.
  obtain ⟨-, rfl⟩ := @kbdReadlineLate_spec _ before _ [[0x30], [0x1C]] [] [] r' hcall
  have hfits := ((copyInBounds_iff_copyLen before (fun _ => 0) _).1 hin).2
  rw [readlineCopy_len] at hlen
  rw [hlen, hpos] at hfits
  exact absurd hfits (by decide)

end Feudos
