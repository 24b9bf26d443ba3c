import Feudos.Keyboard.Wrapping
import Feudos.Shell.Exec

/-!
# The shell and the keyboard interrupt (`ksh_run`)

The loop of `ksh_run` as a machine with one step for each part of the loop, and the keyboard
interrupt, which can come between any two of them.  The two share the keyboard buffer.

- `Shell.step`            : the next step of the loop;
- `Shell.act`             : an interrupt or a step, so a run is a list of actions;
- `Waits`, `ReadInv`      : what the buffer and `line` hold at each point of the loop;
- `executed_prefix_typed` : the shell executes the lines that were typed, in order, each once, in
  every run where a key that types a character comes while `kbd_readline` waits for more.
-/

namespace Feudos

open Vga GuardedRun

/-! ## The machine -/

/-- Where the loop of `ksh_run` is: before the prompt, before `start_pos` is recorded, in the loop
of `kbd_readline`, behind it, before the newline is cut, before `ksh_exec`, in it, or halted. -/
inductive Pc
  | prompt
  | enter
  | wait (startPos : Nat)
  | copy (startPos : Nat)
  | cut (len : Nat)
  | exec
  | running
  | halted
  deriving DecidableEq

/-- The kernel, the array `line`, and the strings handed to `ksh_exec` so far. -/
structure Shell where
  kernel : Kernel
  line : Buffer
  pc : Pc
  executed : List (List UInt8)

def lineSize : Nat := 128

/-- The start of `ksh_run`; `line` is not initialised. -/
def Shell.start (past : Nat → UInt8) (terminal : Terminal) (line : Buffer) : Shell :=
  { kernel := Kernel.boot past terminal, line := line, pc := .prompt, executed := [] }

/-- The next step of the loop. -/
def Shell.step (m : Machine) (s : Shell) : Shell :=
  match s.pc with
  | .prompt =>
      { s with
        kernel := { s.kernel with terminal := kprintf s.kernel.terminal (cstr "ksh> ") [] }
        pc := .enter }
  | .enter => { s with pc := .wait s.kernel.kbdBuf.pos }
  | .wait startPos =>
      -- `hlt`, then the test; the interrupts before it are actions of their own.
      let test := readlineTest s.kernel.kbdBuf startPos
      { s with
        kernel := { s.kernel with kbdBuf := test.2 }
        pc := if test.1 then .copy startPos else .wait startPos }
  | .copy startPos =>
      let read := readlineCopy s.kernel s.line lineSize startPos
      { s with kernel := read.kernel, line := read.line, pc := .cut read.len }
  | .cut len => { s with line := s.line.write (u64 (len + 2 ^ 64 - 1)) 0, pc := .exec }
  | .exec =>
      let s := { s with executed := s.executed ++ [s.line.toNul lineSize] }
      match kshExec m s.kernel.terminal (s.line.slice 0 lineSize) with
      | none =>
          -- An access outside `line`: anything may follow.
          { s with pc := .halted }
      | some e =>
          { s with
            kernel := { s.kernel with terminal := e.terminal }
            line := { s.line with get := fun i => e.cmd.getD i (s.line.get i) }
            pc := if e.result = none then .halted else .running }
  | .running => { s with pc := .prompt }
  | .halted => s

/-- A keyboard interrupt, or a step of the shell. -/
inductive Action
  | key (sc : UInt8)
  | shell
  deriving DecidableEq

/-- `kernel_panic` halts with interrupts disabled. -/
def Shell.act (m : Machine) (s : Shell) : Action → Shell
  | .key sc =>
      if s.pc = .halted then s else { s with kernel := kbdHandleScancode s.kernel sc }
  | .shell => s.step m

/-! ## The lines typed -/

/-- The scancodes of a run. -/
def keysOf : List Action → List UInt8
  | [] => []
  | .key sc :: acts => sc :: keysOf acts
  | .shell :: acts => keysOf acts

/-- The lines completed so far, and the line begun. -/
def feed (x : List (List UInt8) × List UInt8) (c : UInt8) : List (List UInt8) × List UInt8 :=
  if c = 10 then (x.1 ++ [x.2], []) else (x.1, x.2 ++ [c])

/-- The lines of a text that end in a newline. -/
def typedLines (text : List UInt8) : List (List UInt8) :=
  (text.foldl feed ([], [])).1

theorem feed_extends (x : List (List UInt8) × List UInt8) (text : List UInt8) :
    x.1 <+: (text.foldl feed x).1 := by
  induction text generalizing x with
  | nil =>
      exact List.prefix_refl _
  | cons c text ih =>
      refine List.IsPrefix.trans ?_ (ih (feed x c))
      unfold feed
      split
      · exact List.prefix_append _ _
      · exact List.prefix_refl _

/-! ## The run invariant -/

/-- A line without a newline or NUL. -/
def PlainLine (l : List UInt8) : Prop := (10 : UInt8) ∉ l ∧ NulFree l

/-- What `kbd_readline` has in the buffer `b`, after the lines `done`: a part of a line, or a
complete one. -/
inductive Waits (b : KbdBuffer) (done : List (List UInt8)) (startPos : Nat) :
    List (List UInt8) × List UInt8 → Prop
  | partly {b₀ : KbdBuffer} {l : List UInt8} (hstart : b₀.pos = startPos) (hholds : Holds b₀ l b)
      (hline : PlainLine l) : Waits b done startPos (done, l)
  | complete {b₀ : KbdBuffer} {l : List UInt8} (hstart : b₀.pos = startPos)
      (hholds : Holds b₀ (l ++ [10]) b) (hline : PlainLine l) :
      Waits b done startPos (done ++ [l], [])

/-- The lines typed are the lines executed and what the loop has in hand. -/
def ReadInv (s : Shell) (x : List (List UInt8) × List UInt8) : Prop :=
  match s.pc with
  | .prompt | .enter | .running => x = (s.executed, [])
  | .wait startPos => Waits s.kernel.kbdBuf s.executed startPos x
  | .copy startPos =>
      ∃ b₀ l, b₀.pos = startPos ∧ Holds b₀ (l ++ [10]) s.kernel.kbdBuf ∧ PlainLine l ∧
        x = (s.executed ++ [l], [])
  | .cut len =>
      ∃ l, len = l.length + 1 ∧ s.line.slice 0 l.length = l ∧ PlainLine l ∧
        x = (s.executed ++ [l], [])
  | .exec => ∃ l, s.line.toNul lineSize = l ∧ x = (s.executed ++ [l], [])
  | .halted => s.executed <+: x.1

theorem ReadInv.executed_first {s : Shell} {x : List (List UInt8) × List UInt8}
    (h : ReadInv s x) : s.executed <+: x.1 := by
  unfold ReadInv at h
  split at h
  · subst h
    exact List.prefix_refl _
  · subst h
    exact List.prefix_refl _
  · subst h
    exact List.prefix_refl _
  · cases h with
    | partly _ _ _ =>
        exact List.prefix_refl _
    | complete _ _ _ =>
        exact List.prefix_append _ _
  · rcases h with ⟨b₀, l, -, -, -, rfl⟩
    exact List.prefix_append _ _
  · rcases h with ⟨l, -, -, -, rfl⟩
    exact List.prefix_append _ _
  · rcases h with ⟨l, -, rfl⟩
    exact List.prefix_append _ _
  · exact h

/-- The exit condition holds when the line is complete, and not before. -/
theorem readlineTest_partly {b₀ b : KbdBuffer} {l : List UInt8} (h : Holds b₀ l b)
    (hl : PlainLine l) : (readlineTest b b₀.pos).1 = false := by
  rw [h.test]
  simpa using fun hlast => hl.1 (List.mem_of_getLast? hlast)

theorem readlineTest_complete {b₀ b : KbdBuffer} {l : List UInt8} (h : Holds b₀ (l ++ [10]) b) :
    (readlineTest b b₀.pos).1 = true := by
  rw [h.test]
  simp

/-! ## Steps of the shell -/

/-- The shell only reads the keyboard buffer. -/
theorem step_pos (m : Machine) (s : Shell) :
    (s.step m).kernel.kbdBuf.pos = s.kernel.kbdBuf.pos := by
  cases hpc : s.pc with
  | prompt | enter | cut _ | running | halted =>
      simp only [Shell.step, hpc]
  | wait startPos =>
      simp only [Shell.step, hpc]
      exact readlineTest_pos _ _
  | copy startPos =>
      simp only [Shell.step, hpc]
      exact readlineCopy_pos ..
  | exec =>
      simp only [Shell.step, hpc]
      split <;> rfl

theorem step_shiftHeld (m : Machine) (s : Shell) :
    (s.step m).kernel.shiftHeld = s.kernel.shiftHeld := by
  cases hpc : s.pc with
  | prompt | enter | wait _ | cut _ | running | halted =>
      simp only [Shell.step, hpc]
  | copy startPos =>
      simp only [Shell.step, hpc]
      exact readlineCopy_shiftHeld ..
  | exec =>
      simp only [Shell.step, hpc]
      split <;> rfl

/-- A test of the exit condition: it holds exactly when the line is complete. -/
theorem wait_inv (m : Machine) {s : Shell} {x : List (List UInt8) × List UInt8} {startPos : Nat}
    (hpc : s.pc = .wait startPos) (h : Waits s.kernel.kbdBuf s.executed startPos x) :
    ReadInv (s.step m) x := by
  cases h with
  | @partly b₀ l hstart hholds hline =>
      have htest := readlineTest_partly hholds hline
      rw [hstart] at htest
      simp only [Shell.step, hpc, ReadInv, htest]
      exact .partly hstart
        (hholds.congr (readlineTest_pos _ _) (readlineTest_get _ _)) hline
  | @complete b₀ l hstart hholds hline =>
      have htest := readlineTest_complete hholds
      rw [hstart] at htest
      simp only [Shell.step, hpc, ReadInv, htest]
      exact ⟨b₀, l, hstart, hholds.congr (readlineTest_pos _ _) (readlineTest_get _ _),
        hline, rfl⟩

/-- The copy delivers the line and its newline. -/
theorem copy_inv (m : Machine) {s : Shell} {startPos : Nat} {b₀ : KbdBuffer} {l : List UInt8}
    (hpc : s.pc = .copy startPos) (hstart : b₀.pos = startPos)
    (hholds : Holds b₀ (l ++ [10]) s.kernel.kbdBuf) (hline : PlainLine l)
    (hfits : l.length ≤ 126) : ReadInv (s.step m) (s.executed ++ [l], []) := by
  have hlen : (l ++ [(10 : UInt8)]).length = l.length + 1 := by simp
  -- 126 characters and the newline are 127 bytes, one below the size of `line`.
  have hread := hholds.delivers s.line lineSize (by simp only [lineSize]; omega) (by omega)
  rw [hstart] at hread
  simp only [Shell.step, hpc, ReadInv]
  refine ⟨l, hread.len.trans hlen, ?_, hline, rfl⟩
  have hslice := hread.line
  rw [hlen, Buffer.slice_succ] at hslice
  exact (List.append_inj hslice (by simp)).1

/-- `line[len - 1] = '\0'` overwrites the newline, so `line` is the string typed. -/
theorem cut_inv (m : Machine) {s : Shell} {l : List UInt8} (hpc : s.pc = .cut (l.length + 1))
    (hslice : s.line.slice 0 l.length = l) (hline : PlainLine l) (hfits : l.length ≤ 126) :
    ReadInv (s.step m) (s.executed ++ [l], []) := by
  have hindex : u64 (l.length + 1 + 2 ^ 64 - 1) = l.length := by
    unfold u64
    omega
  have hbelow : (s.line.write l.length 0).slice 0 l.length = s.line.slice 0 l.length := by
    apply Buffer.slice_congr
    intro j hj
    have hne : j ≠ l.length := Nat.ne_of_lt hj
    simp [hne]
  simp only [Shell.step, hpc, ReadInv, hindex]
  refine ⟨l, toNul_eq hline.2 ?_ (by simp) (by simp only [lineSize]; omega), rfl⟩
  rw [hbelow, hslice]

/-- `ksh_exec` gets the line, whatever it then does. -/
theorem exec_inv (m : Machine) {s : Shell} {l : List UInt8} (hpc : s.pc = .exec)
    (hline : s.line.toNul lineSize = l) : ReadInv (s.step m) (s.executed ++ [l], []) := by
  simp only [Shell.step, hpc, hline]
  cases kshExec m s.kernel.terminal (s.line.slice 0 lineSize) with
  | none =>
      exact List.prefix_refl _
  | some e =>
      by_cases hhalts : e.result = none
      · simp only [ReadInv, if_pos hhalts]
        exact List.prefix_refl _
      · simp only [ReadInv, if_neg hhalts]

/-- A step of the shell keeps the invariant, when the lines fit in `line`. -/
theorem step_inv (m : Machine) {s : Shell} {x : List (List UInt8) × List UInt8}
    (hlines : ∀ l ∈ x.1, l.length ≤ 126) (h : ReadInv s x) : ReadInv (s.step m) x := by
  unfold ReadInv at h
  cases hpc : s.pc with
  | prompt | running | halted =>
      simp only [hpc] at h
      simp only [Shell.step, hpc, ReadInv]
      exact h
  | enter =>
      simp only [hpc] at h
      simp only [Shell.step, hpc, ReadInv]
      rw [h]
      -- Nothing of the next line has been typed before `start_pos` is recorded.
      exact .partly rfl (holds_nil s.kernel.kbdBuf) ⟨List.not_mem_nil, List.not_mem_nil⟩
  | wait startPos =>
      simp only [hpc] at h
      exact wait_inv m hpc h
  | copy startPos =>
      simp only [hpc] at h
      rcases h with ⟨b₀, l, hstart, hholds, hline, rfl⟩
      exact copy_inv m hpc hstart hholds hline (hlines l (by simp))
  | cut len =>
      simp only [hpc] at h
      rcases h with ⟨l, rfl, hslice, hline, rfl⟩
      exact cut_inv m hpc hslice hline (hlines l (by simp))
  | exec =>
      simp only [hpc] at h
      rcases h with ⟨l, hline, rfl⟩
      exact exec_inv m hpc hline

/-! ## Interrupts -/

/-- A character typed while `kbd_readline` waits, the line not being complete, extends the line. -/
theorem key_inv {s : Shell} {x : List (List UInt8) × List UInt8} {sc c : UInt8} {startPos : Nat}
    (hpc : s.pc = .wait startPos) (htest : (readlineTest s.kernel.kbdBuf startPos).1 = false)
    (hdecode : decode s.kernel.shiftHeld sc = some c) (hc : c ≠ 8)
    (hroom : s.kernel.kbdBuf.pos < kbdBufSize - 1) (h : ReadInv s x) :
    ReadInv { s with kernel := kbdHandleScancode s.kernel sc } (feed x c) := by
  have hbuf : (kbdHandleScancode s.kernel sc).kbdBuf = kbdBufferPush s.kernel.kbdBuf c := by
    rw [kbdHandleScancode_kbdBuf, hdecode]
    rfl
  simp only [ReadInv, hpc] at h ⊢
  rw [hbuf]
  cases h with
  | @partly b₀ l hstart hholds hline =>
      have hpos := hholds.pos
      -- There is room for one more character, so the push does not start over.
      have hpush := push_holds (c := c) hholds (by rw [KeepsTo, if_neg hc]; omega)
      rw [editLine, if_neg hc] at hpush
      by_cases hnewline : c = 10
      · subst hnewline
        exact .complete hstart hpush hline
      · rw [feed, if_neg hnewline]
        have hmore : PlainLine (l ++ [c]) := by
          refine ⟨?_, ?_⟩
          · simpa [hline.1] using Ne.symm hnewline
          · simpa [NulFree, hline.2] using ⟨hline.2, (decode_ne_zero hdecode).symm⟩
        exact .partly hstart hpush hmore
  | @complete b₀ l hstart hholds hline =>
      -- The line was complete: the exit condition would hold.
      have hready := readlineTest_complete hholds
      rw [hstart, htest] at hready
      exact absurd hready (by decide)

/-- Only the buffer of the kernel counts. -/
theorem ReadInv.of_kbdBuf {s : Shell} {x : List (List UInt8) × List UInt8} {k : Kernel}
    (hk : k.kbdBuf = s.kernel.kbdBuf) (h : ReadInv s x) : ReadInv { s with kernel := k } x := by
  unfold ReadInv at h ⊢
  simp only [hk]
  exact h

/-- `kbd_readline` waits and its exit condition does not hold, or all is over. -/
def Shell.listens (s : Shell) : Bool :=
  match s.pc with
  | .wait startPos => !(readlineTest s.kernel.kbdBuf startPos).1
  | .halted => true
  | _ => false

/-- A key comes in time when it types nothing, or the shell listens. -/
def InTime (s : Shell) : Action → Prop
  | .shell => True
  | .key sc => decode s.kernel.shiftHeld sc = none ∨ s.listens = true

instance (s : Shell) : (a : Action) → Decidable (InTime s a)
  | .shell => .isTrue trivial
  | .key _ => inferInstanceAs (Decidable (_ ∨ _))

/-- An interrupt in time feeds its character, if it types one, to the lines. -/
theorem key_step (m : Machine) {s : Shell} {x : List (List UInt8) × List UInt8} {sc : UInt8}
    (hhalted : s.pc ≠ .halted)
    (hkey : ∀ c ∈ (decode s.kernel.shiftHeld sc).toList, Printable c ∨ c = 10)
    (hroom : s.kernel.kbdBuf.pos + (decode s.kernel.shiftHeld sc).toList.length ≤ kbdBufSize - 1)
    (hok : InTime s (.key sc)) (h : ReadInv s x) :
    ReadInv (s.act m (.key sc)) ((decode s.kernel.shiftHeld sc).toList.foldl feed x) ∧
      (s.act m (.key sc)).kernel.kbdBuf.pos =
        s.kernel.kbdBuf.pos + (decode s.kernel.shiftHeld sc).toList.length := by
  have hbuf := kbdHandleScancode_kbdBuf s.kernel sc
  rw [Shell.act, if_neg hhalted]
  cases hdecode : decode s.kernel.shiftHeld sc with
  | none =>
      rw [hdecode] at hbuf
      exact ⟨h.of_kbdBuf hbuf, congrArg KbdBuffer.pos hbuf⟩
  | some c =>
      rw [hdecode] at hkey hroom hbuf
      have hc : c ≠ 8 := by
        rcases hkey c (List.mem_cons_self ..) with hprint | hnewline
        · exact hprint.ne (by decide)
        · rw [hnewline]
          decide
      have hfree : s.kernel.kbdBuf.pos < kbdBufSize - 1 := hroom
      have hfull : s.kernel.kbdBuf.pos ≠ kbdBufSize - 1 := Nat.ne_of_lt hfree
      have hpush := (kbdBufferPush_appends hc hfull).1
      rcases hok with hnothing | hwaits
      · rw [hdecode] at hnothing
        cases hnothing
      · -- A character in time: `kbd_readline` waits, since the shell has not halted.
        unfold Shell.listens at hwaits
        split at hwaits
        · rename_i startPos hpc
          have htest : (readlineTest s.kernel.kbdBuf startPos).1 = false := by simpa using hwaits
          exact ⟨key_inv hpc htest hdecode hc hfree h, (congrArg KbdBuffer.pos hbuf).trans hpush⟩
        · rename_i hpc
          exact absurd hpc hhalted
        · cases hwaits

/-! ## Runs -/

/-- Once halted, the machine stays as it is. -/
theorem halted_executed (m : Machine) {s : Shell} (h : s.pc = .halted) (acts : List Action) :
    (acts.foldl (Shell.act m) s).executed = s.executed := by
  have hstay : ∀ (s : Shell) (a : Action), s.pc = .halted → s.act m a = s := by
    intro s a hs
    cases a with
    | key sc =>
        simp [Shell.act, hs]
    | shell =>
        simp [Shell.act, Shell.step, hs]
  induction acts with
  | nil =>
      rfl
  | cons a acts ih =>
      rw [List.foldl_cons, hstay s a h, ih]

theorem act_key_shiftHeld (m : Machine) {s : Shell} (sc : UInt8) (h : s.pc ≠ .halted) :
    (s.act m (.key sc)).kernel.shiftHeld = shiftAfter s.kernel.shiftHeld sc := by
  rw [Shell.act, if_neg h]
  exact kbdHandleScancode_shiftHeld s.kernel sc

theorem run_executed_first (m : Machine) {acts : List Action} {s : Shell}
    {x : List (List UInt8) × List UInt8} (h : ReadInv s x)
    (hkeys : ∀ c ∈ typed s.kernel.shiftHeld (keysOf acts), Printable c ∨ c = 10)
    (hlines : ∀ l ∈ ((typed s.kernel.shiftHeld (keysOf acts)).foldl feed x).1, l.length ≤ 126)
    (htotal : s.kernel.kbdBuf.pos + (typed s.kernel.shiftHeld (keysOf acts)).length <
      kbdBufSize - 1)
    (hok : Guarded (Shell.act m) InTime s acts) :
    (acts.foldl (Shell.act m) s).executed <+:
      ((typed s.kernel.shiftHeld (keysOf acts)).foldl feed x).1 := by
  induction acts generalizing s x with
  | nil =>
      exact h.executed_first
  | cons a acts ih =>
      by_cases hhalted : s.pc = .halted
      · -- No key is taken any more: the lines executed stay the first of the lines typed.
        rw [halted_executed m hhalted]
        exact h.executed_first.trans (feed_extends x _)
      · rw [List.foldl_cons]
        cases a with
        | shell =>
            have hsofar : ∀ l ∈ x.1, l.length ≤ 126 := fun l hl =>
              hlines l ((feed_extends x _).subset hl)
            have hstep := step_inv m hsofar h
            simp only [keysOf] at hkeys hlines htotal ⊢
            rw [← step_shiftHeld m s] at hkeys hlines htotal ⊢
            rw [← step_pos m s] at htotal
            exact ih hstep hkeys hlines htotal hok.2
        | key sc =>
            -- The characters of this key are fed now, those of the later keys by `ih`.
            simp only [keysOf, typed] at hkeys hlines htotal ⊢
            rw [List.length_append] at htotal
            rw [List.foldl_append] at hlines ⊢
            rcases key_step m hhalted (fun c hc => hkeys c (List.mem_append_left _ hc))
              (by omega) hok.1 h with ⟨hstep, hpos⟩
            have hlater : ∀ c ∈ typed (shiftAfter s.kernel.shiftHeld sc) (keysOf acts),
                Printable c ∨ c = 10 := fun c hc => hkeys c (List.mem_append_right _ hc)
            rw [← act_key_shiftHeld m sc hhalted] at hlater hlines htotal ⊢
            exact ih hstep hlater hlines (by rw [hpos]; omega) hok.2

/-- In every run of the shell and the keyboard interrupt from the start of `ksh_run`, over lines of
at most 126 printable characters and fewer than 2047 in all, in which the keys come in time: the
strings handed to `ksh_exec` are the first of the lines typed. -/
theorem executed_prefix_typed (m : Machine) (past : Nat → UInt8) (terminal : Terminal)
    (line : Buffer) (acts : List Action)
    (hkeys : ∀ c ∈ typed false (keysOf acts), Printable c ∨ c = 10)
    (hlines : ∀ l ∈ typedLines (typed false (keysOf acts)), l.length ≤ 126)
    (htotal : (typed false (keysOf acts)).length < 2047)
    (hok : Guarded (Shell.act m) InTime (Shell.start past terminal line) acts) :
    (acts.foldl (Shell.act m) (Shell.start past terminal line)).executed <+:
      typedLines (typed false (keysOf acts)) := by
  have hstart : ReadInv (Shell.start past terminal line) ([], []) := rfl
  have hpos : (Shell.start past terminal line).kernel.kbdBuf.pos = 0 := rfl
  refine run_executed_first m hstart hkeys hlines ?_ hok
  rw [hpos, Nat.zero_add]
  exact htotal

/-- A machine for the runs on fixed inputs. -/
def resetMachine : Machine :=
  { ticks := 0, cpuid := fun _ => ⟨0, 0, 0, 0⟩, stack := [] }

def firstShell : Shell :=
  Shell.start (fun _ => 0) (started vga640 (fun _ => 0) 0x0F) (Buffer.fresh (fun _ => 0))

/-- A session of two lines, `a` and `bc`, typed while the shell waits, and the start of a third. -/
def twoLines : List Action :=
  [.shell, .shell, .key 0x1E, .shell, .key 0x1C, .shell, .shell, .shell, .shell, .shell, .shell,
    .shell, .key 0x30, .key 0x2E, .shell, .key 0x1C, .shell, .shell, .shell, .shell, .shell, .shell,
    .shell, .key 0x20]

theorem executed_prefix_typed_two :
    (twoLines.foldl (Shell.act resetMachine) firstShell).executed <+:
      typedLines (typed false (keysOf twoLines)) :=
  executed_prefix_typed resetMachine (fun _ => 0) _ _ _ (by unfold Printable; decide) (by decide)
    (by decide) (by decide +kernel)

/-- Two lines typed between two tests of `kbd_readline` are executed as one. -/
theorem two_lines_merged :
    let acts : List Action := [.shell, .shell, .key 0x1E, .key 0x1C, .key 0x30, .key 0x1C, .shell,
      .shell, .shell, .shell]
    typedLines (typed false (keysOf acts)) = [bytes "a", bytes "b"] ∧
      (acts.foldl (Shell.act resetMachine) firstShell).executed = [bytes "a\nb"] ∧
      ¬ (acts.foldl (Shell.act resetMachine) firstShell).executed <+:
        typedLines (typed false (keysOf acts)) := by
  decide +kernel

end Feudos
