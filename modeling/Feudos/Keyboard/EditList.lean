import Feudos.Keyboard.Driver

/-!
# The keyboard buffer as a list

What the buffer is for: it holds the characters typed and not erased, in order, and starts over
when it is full.

- `editList`       : the list, one character at a time;
- `Refines l b`    : the buffer `b` holds `l` below `pos`, and has been accessed below its last byte
  only;
- `kbdBuf_refines` : after any scancodes from boot the buffer holds the list of the characters
  typed.
-/

namespace Feudos

open Vga

/-- The list of the characters typed, with backspace and with the restart at 2047 characters. -/
def editList (l : List UInt8) (c : UInt8) : List UInt8 :=
  if c = 8 then l.dropLast
  else if l.length = 2047 then [c]
  else l ++ [c]

/-- The buffer `b` holds `l`. -/
structure Refines (l : List UInt8) (b : KbdBuffer) : Prop where
  pos : b.pos = l.length
  room : l.length ≤ kbdBufSize - 1
  text : ∀ i, i < l.length → l[i]? = some (b.buf.get i)
  plain : ∀ c ∈ l, c ≠ 0 ∧ c ≠ 8
  reads : ∀ i ∈ b.buf.reads, i < kbdBufSize - 1
  writes : ∀ i ∈ b.buf.writes, i < kbdBufSize - 1

theorem boot_refines (past : Nat → UInt8) : Refines [] (KbdBuffer.boot past) where
  pos := rfl
  room := Nat.zero_le _
  text := fun _ hi => absurd hi (Nat.not_lt_zero _)
  plain := fun _ hc => absurd hc List.not_mem_nil
  reads := fun _ hi => absurd hi List.not_mem_nil
  writes := fun _ hi => absurd hi List.not_mem_nil

/-- A backspace erases the last character. -/
theorem refines_erase {l : List UInt8} {b : KbdBuffer} (h : Refines l b) :
    Refines l.dropLast (kbdBufferPush b 8) := by
  have hpos := h.pos
  have hroom := h.room
  by_cases h0 : b.pos = 0
  · have hnil : l = [] := List.length_eq_zero_iff.1 (hpos.symm.trans h0)
    rw [kbdBufferPush_nothing h0, hnil]
    rw [hnil] at h
    exact h
  · rcases kbdBufferPush_erases h0 with ⟨hback, hget⟩
    refine ⟨?_, ?_, ?_, ?_, ?_, ?_⟩
    · rw [hback, hpos, List.length_dropLast]
    · rw [List.length_dropLast]
      omega
    · intro i hi
      rw [List.length_dropLast] at hi
      calc
        l.dropLast[i]? = l[i]? := by rw [List.getElem?_dropLast, if_pos hi]
        _ = some (b.buf.get i) := h.text i (by omega)
        _ = some ((kbdBufferPush b 8).buf.get i) := by rw [hget, if_neg (by omega)]
    · intro c hc
      exact h.plain c (List.dropLast_subset l hc)
    · -- The byte before `pos` is read and cleared.
      have hreads : (kbdBufferPush b 8).buf.reads = (b.pos - 1) :: b.buf.reads := by
        simp [kbdBufferPush, kbdBufPop, h0, Buffer.read, Buffer.write]
      rw [hreads]
      exact List.forall_mem_cons.2 ⟨by omega, h.reads⟩
    · have hwrites : (kbdBufferPush b 8).buf.writes = (b.pos - 1) :: b.buf.writes := by
        simp [kbdBufferPush, kbdBufPop, h0, Buffer.read, Buffer.write]
      rw [hwrites]
      exact List.forall_mem_cons.2 ⟨by omega, h.writes⟩

/-- Any other character is written at `pos`, or at the start when the buffer is full. -/
theorem kbdBufferPush_accesses (b : KbdBuffer) {c : UInt8} (h8 : c ≠ 8) :
    (kbdBufferPush b c).buf.reads = b.buf.reads ∧
      (kbdBufferPush b c).buf.writes =
        (if b.pos = kbdBufSize - 1 then 0 else b.pos) :: b.buf.writes := by
  simp [kbdBufferPush, h8, Buffer.write]

/-- A character that finds the buffer full starts the list over. -/
theorem refines_restart {l : List UInt8} {b : KbdBuffer} {c : UInt8} (h : Refines l b)
    (h0 : c ≠ 0) (h8 : c ≠ 8) (hfull : l.length = 2047) : Refines [c] (kbdBufferPush b c) := by
  have hsize : kbdBufSize - 1 = 2047 := rfl
  have hwrap : b.pos = kbdBufSize - 1 := by rw [h.pos, hfull, hsize]
  rcases kbdBufferPush_stores b h8 with ⟨hnext, hget⟩
  rcases kbdBufferPush_accesses b h8 with ⟨hreads, hwrites⟩
  rw [if_pos hwrap] at hnext hwrites
  refine ⟨hnext, by simp [hsize], ?_, ?_, ?_, ?_⟩
  · intro i hi
    have hi0 : i = 0 := by simpa using hi
    rw [hget, if_pos hwrap, if_pos hi0, hi0]
    rfl
  · intro d hd
    rw [List.mem_singleton.1 hd]
    exact ⟨h0, h8⟩
  · rw [hreads]
    exact h.reads
  · rw [hwrites]
    exact List.forall_mem_cons.2 ⟨by decide, h.writes⟩

/-- Otherwise it is appended. -/
theorem refines_append {l : List UInt8} {b : KbdBuffer} {c : UInt8} (h : Refines l b)
    (h0 : c ≠ 0) (h8 : c ≠ 8) (hfree : l.length ≠ 2047) :
    Refines (l ++ [c]) (kbdBufferPush b c) := by
  have hpos := h.pos
  have hroom := h.room
  have hsize : kbdBufSize - 1 = 2047 := rfl
  have hnot : b.pos ≠ kbdBufSize - 1 := by omega
  have hlen : (l ++ [c]).length = l.length + 1 := by
    rw [List.length_append, List.length_singleton]
  rcases kbdBufferPush_stores b h8 with ⟨hnext, hget⟩
  rcases kbdBufferPush_accesses b h8 with ⟨hreads, hwrites⟩
  rw [if_neg hnot] at hnext hwrites
  refine ⟨?_, ?_, ?_, ?_, ?_, ?_⟩
  · rw [hnext, hpos, hlen]
  · rw [hlen]
    omega
  · intro i hi
    rw [hlen] at hi
    rw [hget, if_neg hnot]
    -- The last character is the one just written; the others are where they were.
    by_cases hnew : i = b.pos
    · rw [if_pos hnew, hnew, hpos, List.getElem?_concat_length]
    · rw [if_neg hnew, List.getElem?_append_left (by omega)]
      exact h.text i (by omega)
  · intro d hd
    rcases List.mem_append.1 hd with hold | hnew
    · exact h.plain d hold
    · rw [List.mem_singleton.1 hnew]
      exact ⟨h0, h8⟩
  · rw [hreads]
    exact h.reads
  · rw [hwrites]
    exact List.forall_mem_cons.2 ⟨by omega, h.writes⟩

/-- A push does to the buffer what `editList` does to the list. -/
theorem push_refines {l : List UInt8} {b : KbdBuffer} {c : UInt8} (h : Refines l b) (h0 : c ≠ 0) :
    Refines (editList l c) (kbdBufferPush b c) := by
  unfold editList
  by_cases h8 : c = 8
  · subst h8
    exact refines_erase h
  · rw [if_neg h8]
    split
    · exact refines_restart h h0 h8 ‹_›
    · exact refines_append h h0 h8 ‹_›

/-- A scancode does to the buffer what the character it types does to the list. -/
theorem kbdHandleScancode_refines {l : List UInt8} {k : Kernel} (sc : UInt8)
    (h : Refines l k.kbdBuf) :
    Refines ((decode k.shiftHeld sc).toList.foldl editList l) (kbdHandleScancode k sc).kbdBuf := by
  rw [kbdHandleScancode_kbdBuf]
  cases hc : decode k.shiftHeld sc with
  | none =>
      exact h
  | some c =>
      exact push_refines h (decode_ne_zero hc)

theorem foldl_refines {l : List UInt8} {k : Kernel} {scs : List UInt8} (h : Refines l k.kbdBuf) :
    Refines ((typed k.shiftHeld scs).foldl editList l)
      (scs.foldl kbdHandleScancode k).kbdBuf := by
  induction scs generalizing k l with
  | nil =>
      exact h
  | cons sc scs ih =>
      have hrest := ih (kbdHandleScancode_refines sc h)
      rw [kbdHandleScancode_shiftHeld] at hrest
      rw [typed, List.foldl_append]
      exact hrest

/-- After any scancodes from boot the buffer holds the list of the characters typed: no NUL and no
backspace is in it, its last byte has never been written, and every access was in bounds. -/
theorem kbdBuf_refines (past : Nat → UInt8) (terminal : Terminal) (scs : List UInt8) :
    let b := (scs.foldl kbdHandleScancode (Kernel.boot past terminal)).kbdBuf
    let l := (typed false scs).foldl editList []
    b.pos ≤ 2047 ∧ b.buf.slice 0 b.pos = l ∧ (∀ c ∈ l, c ≠ 0 ∧ c ≠ 8) ∧
      2047 ∉ b.buf.writes ∧ (∀ i ∈ b.buf.reads, i < kbdBufSize) ∧
      ∀ i ∈ b.buf.writes, i < kbdBufSize := by
  intro b l
  have h : Refines l b := foldl_refines (k := Kernel.boot past terminal) (boot_refines past)
  have hsize : kbdBufSize - 1 = 2047 := rfl
  refine ⟨?_, ?_, h.plain, ?_, ?_, ?_⟩
  · rw [h.pos]
    exact h.room
  · rw [h.pos]
    refine Buffer.slice_eq (fun i hi => ?_)
    rw [Nat.zero_add, h.text i hi]
  · intro hmem
    exact absurd (h.writes 2047 hmem) (by decide)
  · intro i hi
    exact Nat.lt_of_lt_of_le (h.reads i hi) (Nat.sub_le _ _)
  · intro i hi
    exact Nat.lt_of_lt_of_le (h.writes i hi) (Nat.sub_le _ _)

end Feudos
