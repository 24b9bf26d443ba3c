import Feudos.Keyboard.Driver
import Feudos.Library.Loop
import Feudos.Library.Run

/-!
# Reading a line (`kbd_readline`)

`kbd_readline` records `pos`, halts until an interrupt, and tests the last byte of the buffer each
time it wakes.  A wait is therefore given by the list of its *wakes*: the scancodes handled before
each test.

- `Holds b₀ line b`      : the buffer `b` is `b₀` with `line` behind its `pos`;
- `push_holds`           : a key that neither wraps the buffer nor leaves the line edits the line;
- `readlineWait_eachKey` : waiting, when the condition is tested after each key;
- `kbdReadline_holds`    : the call returns at the Enter of a line that the buffer holds;
- `kbdReadline_returns`  : if the line fits, it is delivered.
-/

namespace Feudos

open Vga CountedLoop GuardedRun

/-! ## `kmemcpy` -/

/-- `kmemcpy`, from index `start` of `src` to the start of `dst`. -/
def kmemcpy (dst src : Buffer) (start n : Nat) : Buffer × Buffer :=
  range 0 n (fun i x => (x.1.write i (x.2.get (start + i)), x.2.read (start + i))) (dst, src)

theorem kmemcpy_spec (dst src : Buffer) (start n : Nat) :
    (kmemcpy dst src start n).2.get = src.get ∧
      ∀ i, (kmemcpy dst src start n).1.get i =
        if i < n then src.get (start + i) else dst.get i := by
  refine range_induction 0 n _ (dst, src)
    (fun m x => x.2.get = src.get ∧
      ∀ i, x.1.get i = if i < m then src.get (start + i) else dst.get i)
    (Nat.zero_le n) ⟨rfl, fun i => rfl⟩ ?_
  intro m x _ _ hx
  rcases hx with ⟨hsrc, hdst⟩
  refine ⟨hsrc, ?_⟩
  intro i
  by_cases hEq : i = m
  · simp [hEq, hsrc]
  · have hlt : i < m + 1 ↔ i < m := by omega
    simp [hEq, hdst i, hlt]

/-! ## `kbd_readline` -/

/-- The exit condition of `kbd_readline`; the buffer is only read when `pos` has moved and is not
zero. -/
def readlineTest (b : KbdBuffer) (startPos : Nat) : Bool × KbdBuffer :=
  if b.pos ≠ startPos ∧ b.pos ≠ 0 then
    (b.buf.get (b.pos - 1) == 10, { b with buf := b.buf.read (b.pos - 1) })
  else
    (false, b)

/-- The loop of `kbd_readline`, over the scancodes handled before each test.  It gives the state in
which the loop ends and the wakes that are left, or `none` while it still waits. -/
def readlineWait (k : Kernel) (startPos : Nat) :
    List (List UInt8) → Option (Kernel × List (List UInt8))
  | [] => none
  | scs :: wakes =>
      let k := scs.foldl kbdHandleScancode k
      let test := readlineTest k.kbdBuf startPos
      let k := { k with kbdBuf := test.2 }
      if test.1 then some (k, wakes) else readlineWait k startPos wakes

/-- What `kbd_readline` leaves behind and returns. -/
structure LineRead where
  kernel : Kernel
  line : Buffer
  len : Nat

/-- The part of `kbd_readline` after the loop; the subtraction is one of `size_t`. -/
def readlineCopy (k : Kernel) (line : Buffer) (max startPos : Nat) : LineRead :=
  let lineLen := u64 (k.kbdBuf.pos + 2 ^ 64 - startPos)
  let lineLen := if lineLen ≥ max then max - 1 else lineLen
  let copied := kmemcpy line k.kbdBuf.buf startPos lineLen
  { kernel := { k with kbdBuf := { k.kbdBuf with buf := copied.2 } }
    line := copied.1.write lineLen 0
    len := lineLen }

/-- `kbd_readline`. -/
def kbdReadline (k : Kernel) (line : Buffer) (max : Nat) (wakes : List (List UInt8)) :
    Option (LineRead × List (List UInt8)) :=
  (readlineWait k k.kbdBuf.pos wakes).map
    (fun x => (readlineCopy x.1 line max k.kbdBuf.pos, x.2))

@[simp] theorem readlineTest_pos (b : KbdBuffer) (startPos : Nat) :
    (readlineTest b startPos).2.pos = b.pos := by
  unfold readlineTest
  split <;> rfl

@[simp] theorem readlineTest_get (b : KbdBuffer) (startPos : Nat) :
    (readlineTest b startPos).2.buf.get = b.buf.get := by
  unfold readlineTest
  split <;> rfl

/-- The number of bytes that `kbd_readline` copies. -/
def copyLen (pos startPos max : Nat) : Nat :=
  if u64 (pos + 2 ^ 64 - startPos) ≥ max then max - 1 else u64 (pos + 2 ^ 64 - startPos)

/-- The line is the bytes from `startPos` on, and a terminator. -/
theorem readlineCopy_line (k : Kernel) (line : Buffer) (max startPos i : Nat) :
    (readlineCopy k line max startPos).line.get i =
      if i = copyLen k.kbdBuf.pos startPos max then 0
      else if i < copyLen k.kbdBuf.pos startPos max then k.kbdBuf.buf.get (startPos + i)
      else line.get i := by
  show (if i = copyLen k.kbdBuf.pos startPos max then 0
    else (kmemcpy line k.kbdBuf.buf startPos (copyLen k.kbdBuf.pos startPos max)).1.get i) = _
  rw [(kmemcpy_spec line k.kbdBuf.buf startPos (copyLen k.kbdBuf.pos startPos max)).2 i]

@[simp] theorem readlineCopy_pos (k : Kernel) (line : Buffer) (max startPos : Nat) :
    (readlineCopy k line max startPos).kernel.kbdBuf.pos = k.kbdBuf.pos := rfl

@[simp] theorem readlineCopy_shiftHeld (k : Kernel) (line : Buffer) (max startPos : Nat) :
    (readlineCopy k line max startPos).kernel.shiftHeld = k.shiftHeld := rfl

@[simp] theorem readlineCopy_kbdBuf (k : Kernel) (line : Buffer) (max startPos : Nat) :
    (readlineCopy k line max startPos).kernel.kbdBuf.buf.get = k.kbdBuf.buf.get :=
  (kmemcpy_spec line k.kbdBuf.buf startPos (copyLen k.kbdBuf.pos startPos max)).1

/-! ## Waiting -/

/-- One wake for each scancode. -/
def eachKey (scs : List UInt8) : List (List UInt8) :=
  scs.map (fun sc => [sc])

/-- The state after the test that follows one scancode. -/
def testedKey (k : Kernel) (startPos : Nat) (sc : UInt8) : Kernel :=
  { kbdHandleScancode k sc with
    kbdBuf := (readlineTest (kbdHandleScancode k sc).kbdBuf startPos).2 }

/-- A wake with one scancode. -/
theorem readlineWait_key (k : Kernel) (startPos : Nat) (sc : UInt8) (rest : List (List UInt8)) :
    readlineWait k startPos ([sc] :: rest) =
      if (readlineTest (kbdHandleScancode k sc).kbdBuf startPos).1 = true then
        some (testedKey k startPos sc, rest)
      else
        readlineWait (testedKey k startPos sc) startPos rest := rfl

@[simp] theorem testedKey_shiftHeld (k : Kernel) (startPos : Nat) (sc : UInt8) :
    (testedKey k startPos sc).shiftHeld = shiftAfter k.shiftHeld sc :=
  kbdHandleScancode_shiftHeld k sc

section

variable {τ : Type}

/-- Waiting, with the condition tested after each key, follows any machine `edit` that the pushes
simulate, as long as `I` rules the exit condition out. -/
theorem readlineWait_eachKey (startPos : Nat) (edit : τ → UInt8 → τ) (ok : τ → UInt8 → Prop)
    (I : τ → KbdBuffer → Prop)
    (hread : ∀ x b i, I x b → I x { b with buf := b.buf.read i })
    (hpush : ∀ x b c, I x b → ok x c → I (edit x c) (kbdBufferPush b c))
    (hbusy : ∀ x b, I x b → (readlineTest b startPos).1 = false)
    {x : τ} {k : Kernel} {scs : List UInt8} (rest : List (List UInt8)) (hI : I x k.kbdBuf)
    (hok : Guarded edit ok x (typed k.shiftHeld scs)) :
    ∃ k', readlineWait k startPos (eachKey scs ++ rest) = readlineWait k' startPos rest ∧
      I ((typed k.shiftHeld scs).foldl edit x) k'.kbdBuf ∧
      k'.shiftHeld = scs.foldl shiftAfter k.shiftHeld := by
  induction scs generalizing k x with
  | nil =>
      exact ⟨k, rfl, hI, rfl⟩
  | cons sc scs ih =>
      rw [typed, guarded_append] at hok
      rcases hok with ⟨hnow, hlater⟩
      have hkey : I ((decode k.shiftHeld sc).toList.foldl edit x)
          (kbdHandleScancode k sc).kbdBuf := by
        rw [kbdHandleScancode_kbdBuf]
        cases hc : decode k.shiftHeld sc with
        | none =>
            exact hI
        | some c =>
            rw [hc] at hnow
            exact hpush x k.kbdBuf c hI hnow.1
      have htest : I ((decode k.shiftHeld sc).toList.foldl edit x)
          (testedKey k startPos sc).kbdBuf := by
        unfold testedKey readlineTest
        split
        · exact hread _ _ _ hkey
        · exact hkey
      -- The test after the key may read a byte, and nothing else happens to the buffer.
      have hbusyKey := hbusy _ _ hkey
      rcases ih htest (by simpa using hlater) with ⟨k', hwait, hI', hshift'⟩
      rw [testedKey_shiftHeld] at hI' hshift'
      refine ⟨k', ?_, ?_, hshift'⟩
      · -- The condition does not hold after this key, so the loop goes on with the next.
        calc
          readlineWait k startPos ([sc] :: (eachKey scs ++ rest))
              = readlineWait (testedKey k startPos sc) startPos (eachKey scs ++ rest) := by
                rw [readlineWait_key, hbusyKey, if_neg Bool.false_ne_true]
          _ = readlineWait k' startPos rest := hwait
      · rw [typed, List.foldl_append]
        exact hI'

end

/-- The key at which the condition holds ends the call. -/
theorem kbdReadline_ends {k k' : Kernel} {enter : UInt8} {wakes later : List (List UInt8)}
    (buf : Buffer) (max : Nat)
    (hwait : readlineWait k k.kbdBuf.pos (wakes ++ [enter] :: later) =
      readlineWait k' k.kbdBuf.pos ([enter] :: later))
    (htest : (readlineTest (kbdHandleScancode k' enter).kbdBuf k.kbdBuf.pos).1 = true) :
    kbdReadline k buf max (wakes ++ [enter] :: later) =
      some (readlineCopy (testedKey k' k.kbdBuf.pos enter) buf max k.kbdBuf.pos, later) := by
  rw [kbdReadline, hwait, readlineWait_key, if_pos htest]
  rfl

/-! ## The line in the buffer -/

/-- A key edits the line typed so far. -/
def editLine (line : List UInt8) (c : UInt8) : List UInt8 :=
  if c = 8 then line.dropLast else line ++ [c]

/-- The buffer `b` is `b₀` with `line` behind its `pos`. -/
structure Holds (b₀ : KbdBuffer) (line : List UInt8) (b : KbdBuffer) : Prop where
  pos : b.pos = b₀.pos + line.length
  text : ∀ i, i < line.length → (line)[i]? = some (b.buf.get (b₀.pos + i))
  before : ∀ i, i < b₀.pos → b.buf.get i = b₀.buf.get i

/-- The keys that keep to the line: there is room for the character, or one to erase. -/
def KeepsTo (startPos : Nat) (line : List UInt8) (c : UInt8) : Prop :=
  if c = 8 then line ≠ [] ∨ startPos = 0 else startPos + line.length < kbdBufSize - 1

theorem holds_nil (b : KbdBuffer) : Holds b [] b where
  pos := rfl
  text := fun _ hi => absurd hi (Nat.not_lt_zero _)
  before := fun _ _ => rfl

/-- Only `pos` and the bytes count. -/
theorem Holds.congr {b₀ b b' : KbdBuffer} {line : List UInt8} (h : Holds b₀ line b)
    (hpos : b'.pos = b.pos) (hget : b'.buf.get = b.buf.get) : Holds b₀ line b' := by
  refine ⟨hpos.trans h.pos, ?_, ?_⟩
  · intro i hi
    rw [hget]
    exact h.text i hi
  · intro i hi
    rw [hget]
    exact h.before i hi

/-- The bytes behind `b₀.pos` are the line. -/
theorem Holds.slice {b₀ b : KbdBuffer} {line : List UInt8} (h : Holds b₀ line b) :
    b.buf.slice b₀.pos line.length = line :=
  Buffer.slice_eq h.text

theorem holds_erase {b₀ b : KbdBuffer} {line : List UInt8} (h : Holds b₀ line b)
    (hline : line ≠ []) : Holds b₀ line.dropLast (kbdBufferPush b 8) := by
  have hbefore := h.pos
  have hne := List.length_pos_of_ne_nil hline
  rcases kbdBufferPush_erases (b := b) (by omega) with ⟨hpos, hget⟩
  refine ⟨?_, ?_, ?_⟩
  · rw [hpos, List.length_dropLast]
    omega
  · intro i hi
    rw [List.length_dropLast] at hi
    calc
      line.dropLast[i]? = (line)[i]? := by rw [List.getElem?_dropLast, if_pos hi]
      _ = some (b.buf.get (b₀.pos + i)) := h.text i (by omega)
      _ = some ((kbdBufferPush b 8).buf.get (b₀.pos + i)) := by rw [hget, if_neg (by omega)]
  · intro i hi
    rw [hget, if_neg (by omega)]
    exact h.before i hi

theorem holds_append {b₀ b : KbdBuffer} {line : List UInt8} {c : UInt8} (h : Holds b₀ line b)
    (hc : c ≠ 8) (hroom : b₀.pos + line.length < kbdBufSize - 1) :
    Holds b₀ (line ++ [c]) (kbdBufferPush b c) := by
  have hbefore := h.pos
  rcases kbdBufferPush_appends (b := b) hc (by omega) with ⟨hpos, hget⟩
  refine ⟨?_, ?_, ?_⟩
  · rw [hpos, List.length_append, List.length_singleton]
    omega
  · intro i hi
    rw [List.length_append, List.length_singleton] at hi
    rw [hget]
    by_cases hlast : i = line.length
    · rw [if_pos (by omega), hlast, List.getElem?_concat_length]
    · rw [if_neg (by omega), List.getElem?_append_left (by omega), h.text i (by omega)]
  · intro i hi
    rw [hget, if_neg (by omega)]
    exact h.before i hi

theorem push_holds {b₀ b : KbdBuffer} {line : List UInt8} {c : UInt8} (h : Holds b₀ line b)
    (hc : KeepsTo b₀.pos line c) : Holds b₀ (editLine line c) (kbdBufferPush b c) := by
  unfold KeepsTo at hc
  unfold editLine
  by_cases h8 : c = 8
  · subst h8
    rw [if_pos rfl] at hc ⊢
    by_cases hline : line = []
    · -- A backspace at the start of the buffer does nothing.
      subst hline
      have h0 : b.pos = 0 := h.pos.trans (hc.resolve_left (fun hne => hne rfl))
      rw [kbdBufferPush_nothing h0]
      exact h
    · exact holds_erase h hline
  · rw [if_neg h8] at hc ⊢
    exact holds_append h h8 hc

theorem foldl_holds {b₀ b : KbdBuffer} {line cs : List UInt8} (h : Holds b₀ line b)
    (hcs : Guarded editLine (KeepsTo b₀.pos) line cs) :
    Holds b₀ (cs.foldl editLine line) (cs.foldl kbdBufferPush b) := by
  induction cs generalizing line b with
  | nil =>
      exact h
  | cons c cs ih =>
      exact ih (push_holds h hcs.1) hcs.2

/-- Without backspaces the edited line is the text typed. -/
theorem foldl_editLine {cs : List UInt8} (hcs : ∀ c ∈ cs, c ≠ 8) (line : List UInt8) :
    cs.foldl editLine line = line ++ cs := by
  induction cs generalizing line with
  | nil =>
      simp
  | cons c cs ih =>
      have hc : c ≠ 8 := hcs c (List.mem_cons_self ..)
      rw [List.foldl_cons, ih (fun d hd => hcs d (List.mem_cons_of_mem _ hd)), editLine, if_neg hc]
      simp

/-- Without backspaces the line grows by one character a key. -/
theorem guarded_typing {P : UInt8 → Prop} {N : Nat} {cs : List UInt8}
    (hcs : ∀ c ∈ cs, c ≠ 8 ∧ P c) (line : List UInt8) (hroom : line.length + cs.length ≤ N) :
    Guarded editLine (fun line c => (c ≠ 8 ∧ P c) ∧ line.length < N) line cs := by
  induction cs generalizing line with
  | nil =>
      exact guarded_nil line
  | cons c cs ih =>
      have hc := hcs c (List.mem_cons_self ..)
      rw [List.length_cons] at hroom
      refine ⟨⟨hc, by omega⟩, ih (fun d hd => hcs d (List.mem_cons_of_mem _ hd)) _ ?_⟩
      rw [editLine, if_neg hc.1, List.length_append, List.length_singleton]
      omega

/-- The exit condition looks at the last byte of the line. -/
theorem Holds.test {b₀ b : KbdBuffer} {line : List UInt8} (h : Holds b₀ line b) :
    (readlineTest b b₀.pos).1 = (line.getLast? == some 10) := by
  have hpos := h.pos
  rcases List.eq_nil_or_concat line with hnil | ⟨init, c, hline⟩
  · subst hnil
    have hstay : ¬ (b.pos ≠ b₀.pos ∧ b.pos ≠ 0) := by simp [hpos]
    simp [readlineTest, if_neg hstay]
  · rw [List.concat_eq_append] at hline
    have hlen : line.length = init.length + 1 := by simp [hline]
    have hmoved : b.pos ≠ b₀.pos ∧ b.pos ≠ 0 := by omega
    have hlast : (line)[init.length]? = some (b.buf.get (b₀.pos + init.length)) :=
      h.text init.length (by omega)
    have hidx : b.pos - 1 = b₀.pos + init.length := by omega
    have hbyte : b.buf.get (b.pos - 1) = c := by
      rw [hidx]
      simpa [hline] using hlast.symm
    simp [readlineTest, if_pos hmoved, hbyte, hline]

/-! ## Returning a line -/

/-- The caller gets `text`, NUL-terminated, and its length. -/
structure Delivers (r : LineRead) (text : List UInt8) : Prop where
  len : r.len = text.length
  line : r.line.slice 0 text.length = text
  terminated : r.line.get text.length = 0

/-- `copyLen` without underflow and clamping. -/
theorem copyLen_eq {pos startPos max n : Nat} (hpos : pos = startPos + n) (hn : n < max)
    (hmax : n < 2 ^ 64) : copyLen pos startPos max = n := by
  have hsub : u64 (pos + 2 ^ 64 - startPos) = n := by
    unfold u64
    omega
  rw [copyLen, hsub, if_neg (by omega)]

/-- `copyLen` in the three cases: the position is above the start, at it or below it. -/
theorem copyLen_cases {pos startPos : Nat} (hpos : pos ≤ kbdBufSize - 1)
    (hstart : startPos ≤ kbdBufSize - 1) :
    copyLen pos startPos 128 =
      if startPos < pos then min (pos - startPos) 127 else if pos = startPos then 0 else 127 := by
  have hsize : kbdBufSize - 1 = 2047 := rfl
  rw [hsize] at hpos hstart
  unfold copyLen u64
  rcases Nat.lt_trichotomy startPos pos with hlt | hEq | hgt
  · have hdiff : (pos + 2 ^ 64 - startPos) % 2 ^ 64 = pos - startPos := by omega
    rw [if_pos hlt, hdiff]
    split <;> omega
  · have hdiff : (pos + 2 ^ 64 - startPos) % 2 ^ 64 = 0 := by omega
    rw [hdiff, if_neg (by decide), if_neg (by omega), if_pos hEq.symm]
  · -- The difference is taken modulo the size of `size_t`, and clamped.
    have hdiff : 128 ≤ (pos + 2 ^ 64 - startPos) % 2 ^ 64 := by omega
    have hne : pos ≠ startPos := Nat.ne_of_lt hgt
    rw [if_pos hdiff, if_neg (Nat.lt_asymm hgt), if_neg hne]

/-- A line that the buffer holds is delivered when it fits. -/
theorem Holds.delivers {b₀ : KbdBuffer} {k : Kernel} {text : List UInt8}
    (h : Holds b₀ text k.kbdBuf) (line : Buffer) (max : Nat) (hfits : text.length < max)
    (hmax : text.length < 2 ^ 64) : Delivers (readlineCopy k line max b₀.pos) text := by
  have hlen : copyLen k.kbdBuf.pos b₀.pos max = text.length := copyLen_eq h.pos hfits hmax
  refine ⟨hlen, ?_, ?_⟩
  · -- Below the length every byte is the one copied.
    refine Buffer.slice_eq (fun i hi => ?_)
    have hbyte := readlineCopy_line k line max b₀.pos i
    rw [hlen, if_neg (Nat.ne_of_lt hi), if_pos hi] at hbyte
    rw [h.text i hi, Nat.zero_add, hbyte]
  · rw [readlineCopy_line, hlen, if_pos rfl]

/-- A key that is not Enter and keeps to the line. -/
def EditsLine (startPos : Nat) (line : List UInt8) (c : UInt8) : Prop :=
  c ≠ 10 ∧ KeepsTo startPos line c

/-- Characters without backspace and newline keep to the line while it stays clear of the end. -/
theorem guarded_plain {startPos : Nat} {cs : List UInt8} (hcs : ∀ c ∈ cs, c ≠ 8 ∧ c ≠ 10)
    (hroom : startPos + cs.length ≤ kbdBufSize - 1) :
    Guarded editLine (EditsLine startPos) [] cs := by
  refine (guarded_typing (N := cs.length) hcs [] (by simp)).imp ?_
  rintro line c ⟨⟨hback, hnewline⟩, hlt⟩
  refine ⟨hnewline, ?_⟩
  rw [KeepsTo, if_neg hback]
  omega

theorem editLine_no_newline {line : List UInt8} {c : UInt8} (hline : (10 : UInt8) ∉ line)
    (hc : c ≠ 10) : (10 : UInt8) ∉ editLine line c := by
  unfold editLine
  split
  · exact fun hmem => hline (List.dropLast_subset line hmem)
  · intro hmem
    rcases List.mem_append.1 hmem with hold | hnew
    · exact hline hold
    · exact hc (List.mem_singleton.1 hnew).symm

/-- Keys that edit the line and then Enter, tested one by one: `kbd_readline` returns at the Enter,
with the edited line and its newline in the buffer. -/
theorem kbdReadline_holds {k : Kernel} {scs : List UInt8} {enter : UInt8} {text : List UInt8}
    (buf : Buffer) (max : Nat) (later : List (List UInt8))
    (hkeys : Guarded editLine (EditsLine k.kbdBuf.pos) [] (typed k.shiftHeld scs))
    (htext : (typed k.shiftHeld scs).foldl editLine [] = text)
    (henter : decode (scs.foldl shiftAfter k.shiftHeld) enter = some 10)
    (hroom : k.kbdBuf.pos + text.length < kbdBufSize - 1) :
    ∃ k', kbdReadline k buf max (eachKey scs ++ [enter] :: later) =
        some (readlineCopy k' buf max k.kbdBuf.pos, later) ∧
      Holds k.kbdBuf (text ++ [10]) k'.kbdBuf := by
  rcases readlineWait_eachKey k.kbdBuf.pos editLine (EditsLine k.kbdBuf.pos)
      (fun line b => Holds k.kbdBuf line b ∧ (10 : UInt8) ∉ line)
      (fun line b i h => ⟨h.1.congr rfl rfl, h.2⟩)
      (fun line b c h hc => ⟨push_holds h.1 hc.2, editLine_no_newline h.2 hc.1⟩)
      (fun line b h => by
        rw [h.1.test]
        simpa using fun hlast => h.2 (List.mem_of_getLast? hlast))
      ([enter] :: later)
      ⟨holds_nil k.kbdBuf, List.not_mem_nil⟩ hkeys with ⟨k', hwait, ⟨hholds, -⟩, hshift⟩
  rw [htext] at hholds
  have hdecode : decode k'.shiftHeld enter = some 10 := by rw [hshift]; exact henter
  -- The Enter itself, and the test that sees it.
  have hline : Holds k.kbdBuf (text ++ [10]) (kbdHandleScancode k' enter).kbdBuf := by
    have hpush := push_holds (c := 10) hholds hroom
    rw [kbdHandleScancode_kbdBuf, hdecode]
    exact hpush
  have htest : (readlineTest (kbdHandleScancode k' enter).kbdBuf k.kbdBuf.pos).1 = true := by
    rw [hline.test]
    simp
  exact ⟨_, kbdReadline_ends buf max hwait htest,
    hline.congr (readlineTest_pos _ _) (readlineTest_get _ _)⟩

/-- A line with room for its newline and terminator is delivered as edited, and nothing before it
has changed. -/
theorem kbdReadline_returns {k : Kernel} {scs : List UInt8} {enter : UInt8} {max : Nat}
    {text : List UInt8} (buf : Buffer) (later : List (List UInt8))
    (hkeys : Guarded editLine (EditsLine k.kbdBuf.pos) [] (typed k.shiftHeld scs))
    (htext : (typed k.shiftHeld scs).foldl editLine [] = text)
    (henter : decode (scs.foldl shiftAfter k.shiftHeld) enter = some 10)
    (hroom : k.kbdBuf.pos + text.length < kbdBufSize - 1) (hfits : text.length + 1 < max) :
    ∃ r, kbdReadline k buf max (eachKey scs ++ [enter] :: later) = some (r, later) ∧
      Delivers r (text ++ [10]) ∧
      ∀ i, i < k.kbdBuf.pos → r.kernel.kbdBuf.buf.get i = k.kbdBuf.buf.get i := by
  obtain ⟨k', hread, hline⟩ := kbdReadline_holds buf max later hkeys htext henter hroom
  have hlen : (text ++ [(10 : UInt8)]).length = text.length + 1 := by simp
  have hsize : kbdBufSize - 1 = 2047 := rfl
  refine ⟨_, hread, hline.delivers buf max (by omega) (by omega), ?_⟩
  intro i hi
  rw [readlineCopy_kbdBuf]
  exact hline.before i hi

end Feudos
