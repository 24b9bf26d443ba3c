import Feudos.Vga.Printf

/-!
# The keyboard driver (`kernel/keyboard.c`)

The interrupt side of the driver: decoding a scancode, the buffer it goes into, and the echo.
`KbdBuffer.buf` records its accesses (`Buffer`), and its bytes from index 2048 on are whatever
lies behind `kbd_buf.buf` in memory.

The decoding is separated from its effect by `kbdHandleScancode_eq`: a scancode changes the shift
state, or pushes and echoes the character `decode` gives, or does nothing.
-/

namespace Feudos

open Vga

/-! ## The buffer -/

def kbdBufSize : Nat := 2048

/-- `struct kbd_buffer`. -/
structure KbdBuffer where
  buf : Buffer
  pos : Nat

/-- `kbd_buf` at boot: all zero, followed by the bytes `past` at index 2048 and behind it. -/
def KbdBuffer.boot (past : Nat → UInt8) : KbdBuffer :=
  { buf := Buffer.fresh (fun i => if i < kbdBufSize then 0 else past i)
    pos := 0 }

/-- `kbd_buf_pop`. -/
def kbdBufPop (b : KbdBuffer) : UInt8 × KbdBuffer :=
  if b.pos = 0 then
    (0, b)
  else
    let pos := b.pos - 1
    (b.buf.get pos, { buf := (b.buf.read pos).write pos 0, pos := pos })

/-- `kbd_buffer_push`. -/
def kbdBufferPush (b : KbdBuffer) (c : UInt8) : KbdBuffer :=
  if c = 8 then
    (kbdBufPop b).2
  else
    let pos := if b.pos = kbdBufSize - 1 then 0 else b.pos
    { buf := b.buf.write pos c, pos := pos + 1 }

/-! ## What a push does -/

theorem kbdBufferPush_nothing {b : KbdBuffer} (h0 : b.pos = 0) : kbdBufferPush b 8 = b := by
  simp [kbdBufferPush, kbdBufPop, h0]

/-- A backspace takes the byte before `pos`. -/
theorem kbdBufferPush_erases {b : KbdBuffer} (h0 : b.pos ≠ 0) :
    (kbdBufferPush b 8).pos = b.pos - 1 ∧
      ∀ i, (kbdBufferPush b 8).buf.get i = if i = b.pos - 1 then 0 else b.buf.get i := by
  simp [kbdBufferPush, kbdBufPop, h0]

/-- Any other character is stored at `pos`, or at the start of a full buffer. -/
theorem kbdBufferPush_stores (b : KbdBuffer) {c : UInt8} (hc : c ≠ 8) :
    (kbdBufferPush b c).pos = (if b.pos = kbdBufSize - 1 then 0 else b.pos) + 1 ∧
      ∀ i, (kbdBufferPush b c).buf.get i =
        if i = (if b.pos = kbdBufSize - 1 then 0 else b.pos) then c else b.buf.get i := by
  simp [kbdBufferPush, hc]

theorem kbdBufferPush_appends {b : KbdBuffer} {c : UInt8} (hc : c ≠ 8)
    (hroom : b.pos ≠ kbdBufSize - 1) :
    (kbdBufferPush b c).pos = b.pos + 1 ∧
      ∀ i, (kbdBufferPush b c).buf.get i = if i = b.pos then c else b.buf.get i := by
  simpa only [if_neg hroom] using kbdBufferPush_stores b hc

/-! ## Decoding -/

/-- `scancode_ascii`; the entries from `0x3B` on are zero. -/
def scancodeAscii : List UInt8 :=
  [0, 27] ++ bytes "1234567890-=" ++ [8] ++
  [9] ++ bytes "qwertyuiop[]" ++ [10] ++
  [0] ++ bytes "asdfghjkl;'`" ++
  [0] ++ bytes "\\zxcvbnm,./" ++ [0] ++
  bytes "*" ++ [0] ++ bytes " " ++ [0]

/-- `scancode_ascii_shift`. -/
def scancodeAsciiShift : List UInt8 :=
  [0, 27] ++ bytes "!@#$%^&*()_+" ++ [8] ++
  [9] ++ bytes "QWERTYUIOP\x7b\x7d" ++ [10] ++
  [0] ++ bytes "ASDFGHJKL:\"~" ++
  [0] ++ bytes "|ZXCVBNM<>?" ++ [0] ++
  bytes "*" ++ [0] ++ bytes " " ++ [0]

def scLshift : UInt8 := 0x2A
def scRshift : UInt8 := 0x36

/-! ## The interrupt handler -/

/-- The state that interrupts and the shell share. -/
structure Kernel where
  kbdBuf : KbdBuffer
  shiftHeld : Bool
  terminal : Terminal

/-- The state at boot, before any key. -/
def Kernel.boot (past : Nat → UInt8) (terminal : Terminal) : Kernel :=
  { kbdBuf := KbdBuffer.boot past, shiftHeld := false, terminal := terminal }

/-- `kbd_handle_scancode`. -/
def kbdHandleScancode (k : Kernel) (sc : UInt8) : Kernel :=
  let released := sc &&& 0x80 ≠ 0
  let code := sc &&& 0x7F
  if code = scLshift ∨ code = scRshift then
    { k with shiftHeld := !decide released }
  else if released then
    k
  else if code < 128 then
    let c :=
      if k.shiftHeld then scancodeAsciiShift.getD code.toNat 0
      else scancodeAscii.getD code.toNat 0
    if c ≠ 0 then
      let k := { k with kbdBuf := kbdBufferPush k.kbdBuf c }
      { k with terminal := kprintf k.terminal (cstr "%c") [.int (charToInt c)] }
    else
      k
  else
    k

/-! ## What a scancode means -/

/-- The shift state after a scancode. -/
def shiftAfter (shiftHeld : Bool) (sc : UInt8) : Bool :=
  if sc &&& 0x7F = scLshift ∨ sc &&& 0x7F = scRshift then !decide (sc &&& 0x80 ≠ 0)
  else shiftHeld

/-- The character that a scancode types in a shift state, if any. -/
def decode (shiftHeld : Bool) (sc : UInt8) : Option UInt8 :=
  let code := sc &&& 0x7F
  if code = scLshift ∨ code = scRshift then none
  else if sc &&& 0x80 ≠ 0 then none
  else
    let c :=
      if shiftHeld then scancodeAsciiShift.getD code.toNat 0
      else scancodeAscii.getD code.toNat 0
    if c ≠ 0 then some c else none

theorem and_7F_lt (sc : UInt8) : sc &&& 0x7F < 128 := by
  rw [UInt8.lt_iff_toNat_lt, UInt8.toNat_and]
  exact Nat.lt_of_le_of_lt Nat.and_le_right (by decide)

/-- A scancode changes the shift state, or pushes and echoes one character, or does nothing. -/
theorem kbdHandleScancode_eq (k : Kernel) (sc : UInt8) :
    kbdHandleScancode k sc =
      match decode k.shiftHeld sc with
      | none => { k with shiftHeld := shiftAfter k.shiftHeld sc }
      | some c =>
          { k with
            kbdBuf := kbdBufferPush k.kbdBuf c
            terminal := vgaPutc k.terminal c k.terminal.textColor } := by
  have hcode := and_7F_lt sc
  unfold kbdHandleScancode decode shiftAfter
  by_cases hshift : sc &&& 0x7F = scLshift ∨ sc &&& 0x7F = scRshift
  · simp [hshift]
  · by_cases hreleased : sc &&& 0x80 ≠ 0
    · simp [hshift, hreleased]
    · simp only [if_neg hshift, if_neg hreleased, if_pos hcode]
      generalize (if k.shiftHeld then scancodeAsciiShift.getD (sc &&& 0x7F).toNat 0
        else scancodeAscii.getD (sc &&& 0x7F).toNat 0) = c
      by_cases hc : c = 0
      · simp [hc]
      · simp [hc, kprintf_char]

theorem decode_ne_zero {shiftHeld : Bool} {sc c : UInt8} (h : decode shiftHeld sc = some c) :
    c ≠ 0 := by
  unfold decode at h
  dsimp only at h
  generalize (if shiftHeld then scancodeAsciiShift.getD (sc &&& 0x7F).toNat 0
    else scancodeAscii.getD (sc &&& 0x7F).toNat 0) = d at h
  by_cases hd : d = 0
  · simp [hd] at h
  · split at h
    · cases h
    · split at h
      · cases h
      · cases h
        exact hd

/-- A scancode that types a character leaves the shift state alone. -/
theorem shiftAfter_of_decode {shiftHeld : Bool} {sc c : UInt8}
    (h : decode shiftHeld sc = some c) : shiftAfter shiftHeld sc = shiftHeld := by
  unfold decode at h
  unfold shiftAfter
  dsimp only at h
  split at h
  · cases h
  · rename_i hshift
    rw [if_neg hshift]

/-- The characters typed by a sequence of scancodes. -/
def typed : Bool → List UInt8 → List UInt8
  | _, [] => []
  | shiftHeld, sc :: scs =>
      (decode shiftHeld sc).toList ++ typed (shiftAfter shiftHeld sc) scs

theorem typed_append (shiftHeld : Bool) (scs scs' : List UInt8) :
    typed shiftHeld (scs ++ scs') =
      typed shiftHeld scs ++ typed (scs.foldl shiftAfter shiftHeld) scs' := by
  induction scs generalizing shiftHeld with
  | nil =>
      rfl
  | cons sc scs ih =>
      calc
        typed shiftHeld (sc :: (scs ++ scs'))
            = (decode shiftHeld sc).toList ++ typed (shiftAfter shiftHeld sc) (scs ++ scs') := rfl
        _ = (decode shiftHeld sc).toList ++ (typed (shiftAfter shiftHeld sc) scs ++
              typed (scs.foldl shiftAfter (shiftAfter shiftHeld sc)) scs') := by rw [ih]
        _ = typed shiftHeld (sc :: scs) ++
              typed ((sc :: scs).foldl shiftAfter shiftHeld) scs' := by
              rw [typed, List.append_assoc, List.foldl_cons]

@[simp] theorem kbdHandleScancode_shiftHeld (k : Kernel) (sc : UInt8) :
    (kbdHandleScancode k sc).shiftHeld = shiftAfter k.shiftHeld sc := by
  rw [kbdHandleScancode_eq]
  cases h : decode k.shiftHeld sc with
  | none =>
      rfl
  | some c =>
      exact (shiftAfter_of_decode h).symm

theorem foldl_shiftHeld (k : Kernel) (scs : List UInt8) :
    (scs.foldl kbdHandleScancode k).shiftHeld = scs.foldl shiftAfter k.shiftHeld := by
  induction scs generalizing k with
  | nil =>
      rfl
  | cons sc scs ih =>
      calc
        ((sc :: scs).foldl kbdHandleScancode k).shiftHeld
            = scs.foldl shiftAfter (kbdHandleScancode k sc).shiftHeld := ih _
        _ = scs.foldl shiftAfter (shiftAfter k.shiftHeld sc) := by
              rw [kbdHandleScancode_shiftHeld]
        _ = (sc :: scs).foldl shiftAfter k.shiftHeld := rfl

theorem kbdHandleScancode_kbdBuf (k : Kernel) (sc : UInt8) :
    (kbdHandleScancode k sc).kbdBuf =
      (decode k.shiftHeld sc).toList.foldl kbdBufferPush k.kbdBuf := by
  rw [kbdHandleScancode_eq]
  cases decode k.shiftHeld sc <;> rfl

/-- The buffer after a sequence of scancodes is the buffer after the typed characters. -/
theorem foldl_kbdBuf (k : Kernel) (scs : List UInt8) :
    (scs.foldl kbdHandleScancode k).kbdBuf =
      (typed k.shiftHeld scs).foldl kbdBufferPush k.kbdBuf := by
  induction scs generalizing k with
  | nil =>
      rfl
  | cons sc scs ih =>
      calc
        ((sc :: scs).foldl kbdHandleScancode k).kbdBuf
            = (typed (kbdHandleScancode k sc).shiftHeld scs).foldl kbdBufferPush
                (kbdHandleScancode k sc).kbdBuf := ih _
        _ = (typed (shiftAfter k.shiftHeld sc) scs).foldl kbdBufferPush
                ((decode k.shiftHeld sc).toList.foldl kbdBufferPush k.kbdBuf) := by
              rw [kbdHandleScancode_shiftHeld, kbdHandleScancode_kbdBuf]
        _ = (typed k.shiftHeld (sc :: scs)).foldl kbdBufferPush k.kbdBuf := by
              rw [typed, List.foldl_append]

/-! ## Reachable buffers -/

/-- A buffer that typed characters, and reads of the buffer, lead to from boot. -/
inductive KbdBuffer.Reachable (past : Nat → UInt8) : KbdBuffer → Prop
  | boot : Reachable past (KbdBuffer.boot past)
  | push {b : KbdBuffer} {c : UInt8} (hb : Reachable past b) (hc : c ≠ 0) :
      Reachable past (kbdBufferPush b c)
  | read {b : KbdBuffer} {i : Nat} (hb : Reachable past b) :
      Reachable past { b with buf := b.buf.read i }

/-- What holds of every reachable buffer: `pos` stays below the last byte, which is never written,
and there is no NUL below `pos`. -/
structure KbdBuffer.Ok (past : Nat → UInt8) (b : KbdBuffer) : Prop where
  pos_le : b.pos ≤ kbdBufSize - 1
  last : b.buf.get (kbdBufSize - 1) = 0
  below : ∀ i, i < b.pos → b.buf.get i ≠ 0
  behind : ∀ i, kbdBufSize ≤ i → b.buf.get i = past i

theorem boot_ok (past : Nat → UInt8) : (KbdBuffer.boot past).Ok past where
  pos_le := Nat.zero_le _
  last := by simp [KbdBuffer.boot, Buffer.fresh, kbdBufSize]
  below := fun _ hi => absurd hi (Nat.not_lt_zero _)
  behind := by
    intro i hi
    simp [KbdBuffer.boot, Buffer.fresh, Nat.not_lt.2 hi]

theorem kbdBufferPush_ok {past : Nat → UInt8} {b : KbdBuffer} {c : UInt8} (hb : b.Ok past)
    (hc : c ≠ 0) : (kbdBufferPush b c).Ok past := by
  have hle := hb.pos_le
  have hsize : kbdBufSize = 2048 := rfl
  by_cases h8 : c = 8
  · subst h8
    by_cases h0 : b.pos = 0
    · rw [kbdBufferPush_nothing h0]
      exact hb
    · rcases kbdBufferPush_erases h0 with ⟨hpos, hget⟩
      refine ⟨by omega, ?_, ?_, ?_⟩
      · rw [hget, if_neg (by omega)]
        exact hb.last
      · intro i hi
        rw [hpos] at hi
        rw [hget, if_neg (Nat.ne_of_lt hi)]
        exact hb.below i (by omega)
      · intro i hi
        rw [hget, if_neg (by omega)]
        exact hb.behind i hi
  · rcases kbdBufferPush_stores b h8 with ⟨hpos, hget⟩
    -- Wherever the character goes, it is below the last byte, and not above `pos`.
    have htarget : (if b.pos = kbdBufSize - 1 then 0 else b.pos) < kbdBufSize - 1 ∧
        (if b.pos = kbdBufSize - 1 then 0 else b.pos) ≤ b.pos := by
      split <;> omega
    generalize (if b.pos = kbdBufSize - 1 then 0 else b.pos) = target at hpos hget htarget
    refine ⟨by omega, ?_, ?_, ?_⟩
    · rw [hget, if_neg (by omega)]
      exact hb.last
    · intro i hi
      rw [hget]
      by_cases hnew : i = target
      · rw [if_pos hnew]
        exact hc
      · rw [if_neg hnew]
        exact hb.below i (by omega)
    · intro i hi
      rw [hget, if_neg (by omega)]
      exact hb.behind i hi

theorem foldl_push_ok {past : Nat → UInt8} {b : KbdBuffer} {cs : List UInt8} (hb : b.Ok past)
    (hcs : ∀ c ∈ cs, c ≠ 0) : (cs.foldl kbdBufferPush b).Ok past := by
  induction cs generalizing b with
  | nil =>
      exact hb
  | cons c cs ih =>
      exact ih (kbdBufferPush_ok hb (hcs c (List.mem_cons_self ..)))
        (fun d hd => hcs d (List.mem_cons_of_mem _ hd))

theorem KbdBuffer.Reachable.ok {past : Nat → UInt8} {b : KbdBuffer} (h : b.Reachable past) :
    b.Ok past := by
  induction h with
  | boot =>
      exact boot_ok past
  | push _ hc ih =>
      exact kbdBufferPush_ok ih hc
  | read _ ih =>
      exact ⟨ih.pos_le, ih.last, ih.below, ih.behind⟩

theorem kbdHandleScancode_reachable {past : Nat → UInt8} {k : Kernel} (sc : UInt8)
    (h : k.kbdBuf.Reachable past) : (kbdHandleScancode k sc).kbdBuf.Reachable past := by
  rw [kbdHandleScancode_kbdBuf]
  cases hc : decode k.shiftHeld sc with
  | none =>
      exact h
  | some c =>
      exact h.push (decode_ne_zero hc)

end Feudos
