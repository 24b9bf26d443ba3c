import Feudos.Keyboard.Readline

/-!
# Lines and the end of the keyboard buffer

`kbd_buffer_push` goes back to index 0 when `pos` is the last index, so a line can be stored in two
pieces; `kbd_readline` copies one block.  `readline_iff_no_wrap` says that it reads a line of
printable characters exactly when the line and its newline end before the wrap.
-/

namespace Feudos

open Vga GuardedRun

/-- A printable ASCII character. -/
def Printable (c : UInt8) : Prop := 32 ≤ c.toNat ∧ c.toNat ≤ 126

theorem Printable.ne {c d : UInt8} (hc : Printable c) (hd : d.toNat < 32) : c ≠ d := by
  intro hEq
  subst hEq
  exact Nat.not_lt.2 hc.1 hd

theorem Printable.plain {cs : List UInt8} (hcs : ∀ c ∈ cs, Printable c) :
    ∀ c ∈ cs, c ≠ 8 ∧ c ≠ 10 :=
  fun c hc => ⟨(hcs c hc).ne (by decide), (hcs c hc).ne (by decide)⟩

/-! ## A line that wraps -/

/-- `pos` after `n` characters typed at `startPos`. -/
def wrapPos (startPos n : Nat) : Nat :=
  if startPos + n ≤ kbdBufSize - 1 then startPos + n else startPos + n - (kbdBufSize - 1)

theorem wrapPos_succ {startPos n : Nat} (hstart : startPos ≤ kbdBufSize - 1)
    (hn : n < kbdBufSize - 1) :
    wrapPos startPos (n + 1) =
      (if wrapPos startPos n = kbdBufSize - 1 then 0 else wrapPos startPos n) + 1 := by
  have hsize : kbdBufSize - 1 = 2047 := rfl
  unfold wrapPos
  rw [hsize] at hstart hn ⊢
  by_cases hfits : startPos + n ≤ 2047
  · rw [if_pos hfits]
    by_cases hfull : startPos + n = 2047
    · rw [if_pos hfull, if_neg (by omega)]
      omega
    · rw [if_neg hfull, if_pos (by omega)]
      omega
  · have hfull : startPos + n - 2047 ≠ 2047 := by omega
    rw [if_neg hfits, if_neg (by omega), if_neg hfull]
    omega

/-- A wrapped position is not the position the line began at. -/
theorem wrapPos_wrapped (startPos : Nat) {n : Nat} (hn : n ≤ 127)
    (hwrap : kbdBufSize - 1 < startPos + n) :
    0 < wrapPos startPos n ∧ wrapPos startPos n < startPos := by
  have hsize : kbdBufSize - 1 = 2047 := rfl
  unfold wrapPos
  rw [hsize] at hwrap ⊢
  rw [if_neg (by omega)]
  omega

/-- The buffer after `text` was typed at `startPos`, wrapped or not: what is known of `pos`, of the
byte before it, and of the last byte of the array. -/
structure TypedAt (startPos : Nat) (text : List UInt8) (b : KbdBuffer) : Prop where
  pos : b.pos = wrapPos startPos text.length
  newest : text ≠ [] → text.getLast? = some (b.buf.get (b.pos - 1))
  last : b.buf.get (kbdBufSize - 1) = 0

theorem push_typedAt {startPos : Nat} {text : List UInt8} {b : KbdBuffer} {c : UInt8}
    (hstart : startPos ≤ kbdBufSize - 1) (hshort : text.length < kbdBufSize - 1) (hc : c ≠ 8)
    (h : TypedAt startPos text b) : TypedAt startPos (text ++ [c]) (kbdBufferPush b c) := by
  rcases kbdBufferPush_stores b hc with ⟨hnext, hget⟩
  refine ⟨?_, ?_, ?_⟩
  · calc
      (kbdBufferPush b c).pos
          = (if b.pos = kbdBufSize - 1 then 0 else b.pos) + 1 := hnext
      _ = wrapPos startPos (text.length + 1) := by rw [h.pos, wrapPos_succ hstart hshort]
      _ = wrapPos startPos (text ++ [c]).length := by
            rw [List.length_append, List.length_singleton]
  · intro _
    have hbyte : (kbdBufferPush b c).buf.get ((kbdBufferPush b c).pos - 1) = c := by
      rw [hnext, Nat.add_sub_cancel, hget, if_pos rfl]
    rw [hbyte, List.getLast?_concat]
  · have hne : kbdBufSize - 1 ≠ if b.pos = kbdBufSize - 1 then 0 else b.pos := by
      split
      · decide
      · rename_i hroom
        exact fun hEq => hroom hEq.symm
    rw [hget, if_neg hne]
    exact h.last

theorem typedAt_nil {b : KbdBuffer} (hstart : b.pos ≤ kbdBufSize - 1)
    (hlast : b.buf.get (kbdBufSize - 1) = 0) : TypedAt b.pos [] b where
  pos := (if_pos hstart).symm
  newest := fun h => absurd rfl h
  last := hlast

/-- No exit before a newline. -/
theorem TypedAt.busy {startPos : Nat} {text : List UInt8} {b : KbdBuffer}
    (hstart : startPos ≤ kbdBufSize - 1) (h : TypedAt startPos text b)
    (htext : text.getLast? ≠ some 10) : (readlineTest b startPos).1 = false := by
  unfold readlineTest
  by_cases hmoved : b.pos ≠ startPos ∧ b.pos ≠ 0
  · have hne : text ≠ [] := by
      intro hnil
      subst hnil
      exact hmoved.1 (h.pos.trans (if_pos hstart))
    rw [h.newest hne] at htext
    rw [if_pos hmoved]
    simpa using htext
  · rw [if_neg hmoved]

/-- At a newline the exit condition holds, if `pos` has not come back to the start of the line. -/
theorem TypedAt.ready {startPos : Nat} {text : List UInt8} {b : KbdBuffer}
    (h : TypedAt startPos (text ++ [10]) b) (hmoved : b.pos ≠ startPos ∧ b.pos ≠ 0) :
    (readlineTest b startPos).1 = true := by
  have hnewest := h.newest (by simp)
  rw [List.getLast?_concat] at hnewest
  simp [readlineTest, if_pos hmoved, ← Option.some.inj hnewest]

/-- `kbd_readline` waits through the keys of a line, wrapped or not. -/
theorem readlineWait_typedAt {k : Kernel} {scs : List UInt8} (later : List (List UInt8))
    (hstart : k.kbdBuf.pos ≤ kbdBufSize - 1) (hlast : k.kbdBuf.buf.get (kbdBufSize - 1) = 0)
    (hkeys : ∀ c ∈ typed k.shiftHeld scs, c ≠ 8 ∧ c ≠ 10)
    (hlen : (typed k.shiftHeld scs).length ≤ 126) :
    ∃ k', readlineWait k k.kbdBuf.pos (eachKey scs ++ later) =
        readlineWait k' k.kbdBuf.pos later ∧
      TypedAt k.kbdBuf.pos (typed k.shiftHeld scs) k'.kbdBuf ∧
      k'.shiftHeld = scs.foldl shiftAfter k.shiftHeld := by
  have hsize : kbdBufSize - 1 = 2047 := rfl
  have hpush : ∀ text b c, TypedAt k.kbdBuf.pos text b ∧ text.getLast? ≠ some 10 →
      (c ≠ 8 ∧ c ≠ 10) ∧ text.length < 126 →
      TypedAt k.kbdBuf.pos (editLine text c) (kbdBufferPush b c) ∧
        (editLine text c).getLast? ≠ some 10 := by
    intro text b c h hc
    rw [editLine, if_neg hc.1.1]
    exact ⟨push_typedAt hstart (by omega) hc.1.1 h.1, by simpa using hc.1.2⟩
  rcases readlineWait_eachKey k.kbdBuf.pos editLine _
      (fun text b => TypedAt k.kbdBuf.pos text b ∧ text.getLast? ≠ some 10)
      (fun text b i h => ⟨⟨h.1.pos, h.1.newest, h.1.last⟩, h.2⟩) hpush
      (fun text b h => h.1.busy hstart h.2)
      later ⟨typedAt_nil hstart hlast, by simp⟩
      (guarded_typing hkeys [] (by simpa using hlen))
      with ⟨k', hwait, ⟨htyped, -⟩, hshift⟩
  rw [foldl_editLine (fun c hc => (hkeys c hc).1)] at htyped
  exact ⟨k', hwait, htyped, hshift⟩

/-- A line that wraps is returned at its Enter, but as the 127 bytes from `startPos` on. -/
theorem kbdReadline_wrapped {k : Kernel} {scs : List UInt8} {enter : UInt8} (buf : Buffer)
    (later : List (List UInt8)) (hstart : k.kbdBuf.pos ≤ kbdBufSize - 1)
    (hlast : k.kbdBuf.buf.get (kbdBufSize - 1) = 0)
    (hkeys : ∀ c ∈ typed k.shiftHeld scs, c ≠ 8 ∧ c ≠ 10)
    (hlen : (typed k.shiftHeld scs).length ≤ 126)
    (henter : decode (scs.foldl shiftAfter k.shiftHeld) enter = some 10)
    (hwrap : kbdBufSize - 1 < k.kbdBuf.pos + (typed k.shiftHeld scs).length + 1) :
    ∃ r, kbdReadline k buf 128 (eachKey scs ++ [enter] :: later) = some (r, later) ∧
      r.len = 127 ∧ r.line.get (kbdBufSize - 1 - k.kbdBuf.pos) = 0 := by
  have hsize : kbdBufSize - 1 = 2047 := rfl
  rcases readlineWait_typedAt ([enter] :: later) hstart hlast hkeys hlen with
    ⟨k', hwait, htyped, hshift⟩
  have hdecode : decode k'.shiftHeld enter = some 10 := by rw [hshift]; exact henter
  have hline : TypedAt k.kbdBuf.pos (typed k.shiftHeld scs ++ [10])
      (kbdHandleScancode k' enter).kbdBuf := by
    rw [kbdHandleScancode_kbdBuf, hdecode]
    exact push_typedAt (c := 10) hstart (by omega) (by decide) htyped
  -- The Enter moves `pos` below the start of the line.
  have hbelow : 0 < (kbdHandleScancode k' enter).kbdBuf.pos ∧
      (kbdHandleScancode k' enter).kbdBuf.pos < k.kbdBuf.pos := by
    rw [hline.pos, List.length_append, List.length_singleton]
    exact wrapPos_wrapped k.kbdBuf.pos (by omega) hwrap
  have htest := hline.ready ⟨by omega, by omega⟩
  -- The difference of the positions underflows, so the length is cut to 127.
  have hcopy : copyLen (testedKey k' k.kbdBuf.pos enter).kbdBuf.pos k.kbdBuf.pos 128 = 127 := by
    rw [testedKey, readlineTest_pos, copyLen_cases (by omega) hstart, if_neg (by omega),
      if_neg (by omega)]
  refine ⟨_, kbdReadline_ends buf 128 hwait htest, hcopy, ?_⟩
  -- Index 2047 of the buffer, which is never written, lies within the 127 bytes.
  have hindex : k.kbdBuf.pos + (kbdBufSize - 1 - k.kbdBuf.pos) = kbdBufSize - 1 := by omega
  have hlast : (testedKey k' k.kbdBuf.pos enter).kbdBuf.buf.get (kbdBufSize - 1) = 0 := by
    rw [testedKey, readlineTest_get]
    exact hline.last
  rw [readlineCopy_line, hcopy, if_neg (by omega), if_pos (by omega), hindex, hlast]

/-- What is returned then is not the line: of 127 bytes one is a NUL, and the line has none. -/
theorem not_delivers_of_nul {r : LineRead} {text : List UInt8} {i : Nat}
    (htext : ∀ c ∈ text, Printable c) (hlen : r.len = 127) (hi : i < 127)
    (hnul : r.line.get i = 0) :
    ¬ Delivers r (text ++ [10]) := by
  intro hdelivers
  have hlong : (text ++ [(10 : UInt8)]).length = 127 := by
    calc
      (text ++ [(10 : UInt8)]).length = r.len := hdelivers.len.symm
      _ = 127 := hlen
  have hmem : (0 : UInt8) ∈ text ++ [10] := by
    rw [← hdelivers.line, hlong]
    exact List.mem_map.2 ⟨i, List.mem_range.2 hi, by rw [Nat.zero_add]; exact hnul⟩
  rcases List.mem_append.1 hmem with htyped | hnewline
  · exact (htext 0 htyped).ne (d := 0) (by decide) rfl
  · exact absurd (List.mem_singleton.1 hnewline) (by decide)

/-! ## Reading the line -/

/-- From every buffer that keys can lead to, a line of printable characters and Enter is delivered
as typed if and only if the newline is stored before the buffer wraps. -/
theorem readline_iff_no_wrap (past : Nat → UInt8) (k : Kernel) (hk : k.kbdBuf.Reachable past)
    (scs : List UInt8) (enter : UInt8) (later : List (List UInt8)) (buf : Buffer)
    (hkeys : ∀ c ∈ typed k.shiftHeld scs, Printable c)
    (hlen : (typed k.shiftHeld scs).length ≤ 126)
    (henter : decode (scs.foldl shiftAfter k.shiftHeld) enter = some 10) :
    (∃ r, kbdReadline k buf 128 (eachKey scs ++ [enter] :: later) = some (r, later) ∧
        Delivers r (typed k.shiftHeld scs ++ [10])) ↔
      k.kbdBuf.pos + (typed k.shiftHeld scs).length + 1 ≤ kbdBufSize - 1 := by
  have hok := hk.ok
  have hsize : kbdBufSize - 1 = 2047 := rfl
  have hplain := Printable.plain hkeys
  constructor
  · rintro ⟨r, hread, hdelivers⟩
    by_contra hwrap
    rcases kbdReadline_wrapped buf later hok.pos_le hok.last hplain hlen henter (by omega)
      with ⟨r', hread', hlen', hzero⟩
    rw [hread'] at hread
    obtain rfl : r' = r := by simpa using hread
    have hinside : kbdBufSize - 1 - k.kbdBuf.pos < 127 := by
      have hpos := hok.pos_le
      omega
    exact not_delivers_of_nul hkeys hlen' hinside hzero hdelivers
  · intro hroom
    have hguard : Guarded editLine (EditsLine k.kbdBuf.pos) [] (typed k.shiftHeld scs) :=
      guarded_plain hplain (by omega)
    have htext : (typed k.shiftHeld scs).foldl editLine [] = typed k.shiftHeld scs :=
      foldl_editLine (fun c hc => (hplain c hc).1) []
    have hfits : (typed k.shiftHeld scs).length + 1 < 128 := by omega
    rcases kbdReadline_returns buf later hguard htext henter (by omega) hfits
      with ⟨r, hread, hr, -⟩
    exact ⟨r, hread, hr⟩

/-- At the first prompt of a session: `b`, Enter. -/
theorem readline_iff_no_wrap_boot :
    let k := Kernel.boot (fun _ => 0) (started vga640 (fun _ => 0) 0x0F)
    (∃ r, kbdReadline k (Buffer.fresh (fun _ => 0)) 128 (eachKey [0x30] ++ [0x1C] :: []) =
          some (r, []) ∧ Delivers r (typed k.shiftHeld [0x30] ++ [10])) ↔
      k.kbdBuf.pos + (typed k.shiftHeld [0x30]).length + 1 ≤ kbdBufSize - 1 :=
  readline_iff_no_wrap (fun _ => 0) _ .boot [0x30] 0x1C [] _ (by unfold Printable; decide)
    (by decide) (by decide)

/-! ## A line that is not read -/

theorem typed_replicate {shiftHeld : Bool} {sc c : UInt8} (h : decode shiftHeld sc = some c)
    (n : Nat) : typed shiftHeld (List.replicate n sc) = List.replicate n c := by
  induction n with
  | zero =>
      rfl
  | succ n ih =>
      calc
        typed shiftHeld (sc :: List.replicate n sc)
            = [c] ++ typed shiftHeld (List.replicate n sc) := by
              rw [typed, h, shiftAfter_of_decode h]
              rfl
        _ = [c] ++ List.replicate n c := by rw [ih]
        _ = List.replicate (n + 1) c := rfl

theorem foldl_reachable {past : Nat → UInt8} {k : Kernel} (scs : List UInt8)
    (h : k.kbdBuf.Reachable past) : (scs.foldl kbdHandleScancode k).kbdBuf.Reachable past :=
  foldl_invariant (I := fun k : Kernel => k.kbdBuf.Reachable past)
    (fun _ sc hk => kbdHandleScancode_reachable sc hk) h

/-- The state after the key `a` was pressed `n` times at the first prompt. -/
def afterKeys (n : Nat) : Kernel :=
  (List.replicate n 0x1E).foldl kbdHandleScancode
    (Kernel.boot (fun _ => 0) (started vga640 (fun _ => 0) 0x0F))

theorem afterKeys_reachable (n : Nat) : (afterKeys n).kbdBuf.Reachable (fun _ => 0) :=
  foldl_reachable _ .boot

theorem afterKeys_shiftHeld (n : Nat) : (afterKeys n).shiftHeld = false := by
  have hdecode : decode false 0x1E = some 97 := by decide
  rw [afterKeys, foldl_shiftHeld]
  show (List.replicate n 0x1E).foldl shiftAfter false = false
  induction n with
  | zero =>
      rfl
  | succ n ih =>
      rw [List.replicate_succ, List.foldl_cons, shiftAfter_of_decode hdecode]
      exact ih

theorem afterKeys_pos {n : Nat} (hn : n ≤ kbdBufSize - 1) : (afterKeys n).kbdBuf.pos = n := by
  have htyped : typed false (List.replicate n 0x1E) = List.replicate n 97 :=
    typed_replicate (by decide) n
  have hplain : ∀ c ∈ List.replicate n (97 : UInt8), c ≠ 8 ∧ True := by
    intro c hc
    rw [List.eq_of_mem_replicate hc]
    decide
  have hguard : Guarded editLine (KeepsTo 0) [] (List.replicate n 97) := by
    refine (guarded_typing (N := n) hplain [] (by simp)).imp ?_
    intro line c hc
    rw [KeepsTo, if_neg hc.1.1]
    omega
  have hholds := (foldl_holds (holds_nil (KbdBuffer.boot (fun _ => 0))) hguard).pos
  rw [foldl_editLine (fun c hc => (hplain c hc).1)] at hholds
  rw [afterKeys, foldl_kbdBuf]
  show ((typed false (List.replicate n 0x1E)).foldl kbdBufferPush (KbdBuffer.boot _)).pos = n
  rw [htyped, hholds]
  simp [KbdBuffer.boot]

/-- With 2046 keys typed before, the line `b` is delivered as 127 bytes with a NUL after `b`. -/
theorem wrapped_line_not_delivered :
    (afterKeys 2046).kbdBuf.Reachable (fun _ => 0) ∧
      typed (afterKeys 2046).shiftHeld [0x30] = bytes "b" ∧
      decode (afterKeys 2046).shiftHeld 0x1C = some 10 ∧
      ∃ r, kbdReadline (afterKeys 2046) (Buffer.fresh (fun _ => 0)) 128 [[0x30], [0x1C]] =
          some (r, []) ∧
        r.len = 127 ∧ r.line.get 1 = 0 ∧ ¬ Delivers r (bytes "b" ++ [10]) := by
  have hpos : (afterKeys 2046).kbdBuf.pos = 2046 := afterKeys_pos (by decide)
  have hshift := afterKeys_shiftHeld 2046
  have hok := (afterKeys_reachable 2046).ok
  have htyped : typed (afterKeys 2046).shiftHeld [0x30] = bytes "b" := by
    rw [hshift]
    decide
  have henter : decode ([0x30].foldl shiftAfter (afterKeys 2046).shiftHeld) 0x1C = some 10 := by
    rw [hshift]
    decide
  rcases kbdReadline_wrapped (Buffer.fresh (fun _ => 0)) []
    hok.pos_le hok.last (by rw [htyped]; decide) (by rw [htyped]; decide) henter
    (by rw [htyped, hpos]; decide) with ⟨r, hread, hlen, hzero⟩
  rw [hpos] at hzero
  refine ⟨afterKeys_reachable 2046, htyped, by rw [hshift]; decide, r, hread, hlen, hzero, ?_⟩
  intro hdelivers
  exact absurd (hlen.symm.trans hdelivers.len) (by decide)

end Feudos
