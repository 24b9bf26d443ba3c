import Feudos.Keyboard.CopyBounds
import Feudos.Util.Str

/-!
# Lines that do not fit

`kbd_readline` copies at most 127 bytes, and `ksh_run` overwrites the last byte copied.  That byte
is the newline of a line of up to 126 characters, and the 127th character of a longer one.

- `cutNewline_get` : the line buffer behind the cut, byte by byte;
- `kshRun_cuts`    : what `ksh_exec` gets is the line, cut after 126 characters.
-/

namespace Feudos

open Vga GuardedRun

theorem cutNewline_get (r : LineRead) (hpos : 1 ≤ r.len) (hlt : r.len < 2 ^ 64) (i : Nat) :
    (cutNewline r).get i = if i = r.len - 1 then 0 else r.line.get i := by
  have hindex : u64 (r.len + 2 ^ 64 - 1) = r.len - 1 := by
    unfold u64
    omega
  rw [cutNewline, hindex, Buffer.write_get]

/-- The bytes of a line that the keyboard buffer holds, after the copy and the cut. -/
theorem Holds.cut {b₀ : KbdBuffer} {k : Kernel} {text : List UInt8} (line : Buffer)
    (h : Holds b₀ (text ++ [10]) k.kbdBuf) (hroom : b₀.pos + text.length + 1 ≤ kbdBufSize - 1) :
    let cut := cutNewline (readlineCopy k line 128 b₀.pos)
    cut.slice 0 (text.take 126).length = text.take 126 ∧ cut.get (text.take 126).length = 0 := by
  intro cut
  have hsize : kbdBufSize - 1 = 2047 := rfl
  have hpos := h.pos
  rw [List.length_append, List.length_singleton] at hpos
  -- The two regimes of the copy: with the newline, or clamped.
  have hcopy : copyLen k.kbdBuf.pos b₀.pos 128 = min (text.length + 1) 127 := by
    rw [copyLen_cases (by omega) (by omega), if_pos (by omega)]
    omega
  have htake : (text.take 126).length = min text.length 126 := by
    rw [List.length_take, Nat.min_comm]
  have hget : ∀ i, cut.get i =
      if i = min (text.length + 1) 127 - 1 then 0
      else (readlineCopy k line 128 b₀.pos).line.get i := by
    have hcut := cutNewline_get (readlineCopy k line 128 b₀.pos)
    rw [readlineCopy_len, hcopy] at hcut
    exact hcut (by omega) (by omega)
  rw [htake]
  constructor
  · rw [← htake]
    refine Buffer.slice_eq (fun i hi => ?_)
    rw [htake] at hi
    have hbyte := h.text i (by rw [List.length_append, List.length_singleton]; omega)
    rw [List.getElem?_append_left (by omega)] at hbyte
    rw [List.getElem?_take_of_lt (by omega), hbyte, Nat.zero_add, hget, if_neg (by omega),
      readlineCopy_line, hcopy, if_neg (by omega), if_pos (by omega)]
  · rw [hget, if_pos (by omega)]

/-- Whatever the line buffer held before, and wherever the line starts in the keyboard buffer: when
printable characters and Enter are typed, and the newline is stored before the buffer wraps, the
string passed to `ksh_exec` is the first 126 characters typed. -/
theorem kshRun_cuts (k : Kernel) (scs : List UInt8) (enter : UInt8) (later : List (List UInt8))
    (line : Buffer) (hkeys : ∀ c ∈ typed k.shiftHeld scs, Printable c)
    (henter : decode (scs.foldl shiftAfter k.shiftHeld) enter = some 10)
    (hroom : k.kbdBuf.pos + (typed k.shiftHeld scs).length + 1 ≤ 2047) :
    ∃ r, kbdReadline k line 128 (eachKey scs ++ [enter] :: later) = some (r, later) ∧
      (cutNewline r).toNul 128 = (typed k.shiftHeld scs).take 126 := by
  have hsize : kbdBufSize - 1 = 2047 := rfl
  have hplain := Printable.plain hkeys
  obtain ⟨k', hread, hholds⟩ := kbdReadline_holds line 128 later
    (guarded_plain hplain (by omega)) (foldl_editLine (fun c hc => (hplain c hc).1) []) henter
    (by rw [List.nil_append]; omega)
  rw [List.nil_append] at hholds
  obtain ⟨hslice, hnul⟩ := hholds.cut line hroom
  have hfree : NulFree ((typed k.shiftHeld scs).take 126) := fun hmem =>
    (hkeys 0 (List.mem_of_mem_take hmem)).ne (d := 0) (by decide) rfl
  refine ⟨_, hread, toNul_eq hfree hslice hnul ?_⟩
  rw [List.length_take]
  omega

/-- At the first prompt of a session: `b`, Enter. -/
theorem kshRun_cuts_boot :
    let k := Kernel.boot (fun _ => 0) (started vga640 (fun _ => 0) 0x0F)
    ∃ r, kbdReadline k (Buffer.fresh (fun _ => 0xFF)) 128 (eachKey [0x30] ++ [0x1C] :: []) =
        some (r, []) ∧
      (cutNewline r).toNul 128 = (typed k.shiftHeld [0x30]).take 126 :=
  kshRun_cuts _ [0x30] 0x1C [] _ (by unfold Printable; decide) (by decide) (by decide)

end Feudos
