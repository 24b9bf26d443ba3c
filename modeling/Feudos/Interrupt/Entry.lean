import Feudos.Interrupt.Gate

/-!
# Interrupt entry and exit (`arch/x86_64/isr.s`)

- `Interrupted.enter`         : what the processor pushes;
- `isrCode`                   : the stub of each vector;
- `IdtCtx`                    : the context that `interrupt_dispatch` is given;
- `run_isrCommon_calls`, `run_isrCommon_iret` : the common part of the stubs, from whatever the
  stack holds;
- `Transparent`               : entry and exit of one interrupt as the handler and the interrupted
  program see them;
- `interrupt_transparent_iff` : they are transparent, but for the vectors 29 and 30.
-/

namespace Feudos
namespace Interrupt

open WordStack

/-! ## The processor -/

/-- What is interrupted: the registers, the stack, and the rest of what the processor saves. -/
structure Interrupted where
  cpu : Cpu
  ss : Word
  rflags : Word
  cs : Word
  rip : Word

/-- The vectors for which the processor pushes an error code. -/
def errorCodeVectors : List Nat := [8, 10, 11, 12, 13, 14, 17, 21, 29, 30]

/-- What the processor pushes, in order. -/
def Interrupted.frame (x : Interrupted) : List Word :=
  [x.ss, x.cpu.stack.sp, x.rflags, x.cs, x.rip]

/-- The stack pointer at an interrupt is aligned to 16 bytes. -/
def Interrupted.aligned (x : Interrupted) : Stack :=
  { x.cpu.stack with sp := x.cpu.stack.sp &&& ~~~15 }

/-- The state at the first instruction of the stub. -/
def Interrupted.enter (x : Interrupted) (vec : Nat) (errc : Word) : Cpu :=
  { x.cpu with
    stack :=
      (x.frame ++ if vec ∈ errorCodeVectors then [errc] else []).foldl Stack.push x.aligned }

/-! ## The stubs -/

/-- `PUSH_REGS`. -/
def pushRegs : List Reg :=
  [.rax, .rbx, .rcx, .rdx, .rbp, .rsi, .rdi, .r8, .r9, .r10, .r11, .r12, .r13, .r14, .r15]

/-- `POP_REGS`. -/
def popRegs : List Reg :=
  [.r15, .r14, .r13, .r12, .r11, .r10, .r9, .r8, .rdi, .rsi, .rbp, .rdx, .rcx, .rbx, .rax]

def isrCommon : List Instr :=
  pushRegs.map .push ++
  [.movRsp .rdi, .call] ++
  popRegs.map .pop ++
  [.addRsp 16, .iretq]

/-- `ISR_NOERRC`. -/
def isrNoerrc (vec : Nat) : List Instr :=
  .pushImm 0 :: .pushImm (BitVec.ofNat 64 vec) :: isrCommon

/-- `ISR_ERR`. -/
def isrErr (vec : Nat) : List Instr :=
  .pushImm (BitVec.ofNat 64 vec) :: isrCommon

/-- The vectors whose stub is an `ISR_ERR`. -/
def isrErrVectors : List Nat := [8, 10, 11, 12, 13, 14, 17, 21]

/-- The stub of a vector. -/
def isrCode (vec : Nat) : List Instr :=
  if vec ∈ isrErrVectors then isrErr vec else isrNoerrc vec

/-! ## The context -/

/-- `struct idt_ctx`, which is packed. -/
@[ext]
structure IdtCtx where
  r15 : Word
  r14 : Word
  r13 : Word
  r12 : Word
  r11 : Word
  r10 : Word
  r9 : Word
  r8 : Word
  rdi : Word
  rsi : Word
  rbp : Word
  rdx : Word
  rcx : Word
  rbx : Word
  rax : Word
  vector : Word
  errc : Word
  rip : Word
  cs : Word
  rflags : Word

/-- The structure at an address. -/
def IdtCtx.load (mem : Word → Word) (ctx : Word) : IdtCtx :=
  { r15 := mem (slot ctx 0), r14 := mem (slot ctx 1), r13 := mem (slot ctx 2)
    r12 := mem (slot ctx 3), r11 := mem (slot ctx 4), r10 := mem (slot ctx 5)
    r9 := mem (slot ctx 6), r8 := mem (slot ctx 7), rdi := mem (slot ctx 8)
    rsi := mem (slot ctx 9), rbp := mem (slot ctx 10), rdx := mem (slot ctx 11)
    rcx := mem (slot ctx 12), rbx := mem (slot ctx 13), rax := mem (slot ctx 14)
    vector := mem (slot ctx 15), errc := mem (slot ctx 16), rip := mem (slot ctx 17)
    cs := mem (slot ctx 18), rflags := mem (slot ctx 19) }

/-- The context that describes an interrupt. -/
def Interrupted.ctx (x : Interrupted) (vec : Nat) (errc : Word) : IdtCtx :=
  { r15 := x.cpu.reg .r15, r14 := x.cpu.reg .r14, r13 := x.cpu.reg .r13
    r12 := x.cpu.reg .r12, r11 := x.cpu.reg .r11, r10 := x.cpu.reg .r10
    r9 := x.cpu.reg .r9, r8 := x.cpu.reg .r8, rdi := x.cpu.reg .rdi
    rsi := x.cpu.reg .rsi, rbp := x.cpu.reg .rbp, rdx := x.cpu.reg .rdx
    rcx := x.cpu.reg .rcx, rbx := x.cpu.reg .rbx, rax := x.cpu.reg .rax
    vector := BitVec.ofNat 64 vec
    errc := if vec ∈ errorCodeVectors then errc else 0
    rip := x.rip, cs := x.cs, rflags := x.rflags }

/-! ## Transparency -/

/-- What the C calling convention promises of a function that returns: the stack pointer and the
callee-saved registers are as before, and so are the return address and the words above it, as far
as the context and the frame of an interrupt reach. -/
structure CallingConvention (f : Callee) : Prop where
  stackPointer : ∀ c c', f.body c = some c' → c'.stack.sp = c.stack.sp
  calleeSaved : ∀ c c', f.body c = some c' →
    ∀ r ∈ [Reg.rbx, .rbp, .r12, .r13, .r14, .r15], c'.reg r = c.reg r
  above : ∀ c c', f.body c = some c' →
    ∀ i, i < 24 → c'.stack.mem (slot c.stack.sp i) = c.stack.mem (slot c.stack.sp i)

/-- One interrupt: the processor finds the stub; the stub calls `interrupt_dispatch` once, on an
aligned stack and with the context of the interrupt; and when the function returns, the stub reaches
`iretq` with the stack pointer at the frame that the processor pushed and with the registers of the
interrupted program. -/
structure Transparent (f : Callee) (idt : Idt) (isr : Nat → Word) (x : Interrupted) (vec : Nat)
    (errc : Word) : Prop where
  gate : gateOffset (idtInit idt isr vec).bits = isr vec
  entry : ∃ call, (run f (isrCode vec) (x.enter vec errc)).calls = [call] ∧
    call.stack.sp &&& 15 = 0 ∧
    IdtCtx.load (call.push f.ret).stack.mem (call.reg .rdi) = x.ctx vec errc ∧
    (f.body (call.push f.ret) ≠ none →
      ∃ exit, (run f (isrCode vec) (x.enter vec errc)).iret = some exit ∧
        slot exit.stack.sp 5 = x.aligned.sp ∧ Holds exit.stack x.frame.reverse ∧
        exit.reg = x.cpu.reg)

/-! ## The common part of the stubs -/

theorem mem_popRegs (r : Reg) : r ∈ popRegs := by
  cases r <;> decide

theorem pushRegs_length : pushRegs.length = 15 := rfl

theorem popRegs_length : popRegs.length = 15 := rfl

/-- The state in which `isr_common` calls `interrupt_dispatch`. -/
def callState (c : Cpu) : Cpu :=
  let stack := (pushRegs.map c.reg).foldl Stack.push c.stack
  { reg := Function.update c.reg .rdi stack.sp, stack := stack }

/-- The registers are pushed on whatever the stack holds. -/
theorem callState_holds {c : Cpu} {ws : List Word} (h : Holds c.stack ws) (hlen : ws.length ≤ 8) :
    Holds (callState c).stack (popRegs.map c.reg ++ ws) :=
  h.pushAll (pushRegs.map c.reg) (by rw [List.length_map, pushRegs_length]; omega)

theorem callState_sp (c : Cpu) : slot (callState c).stack.sp 15 = c.stack.sp :=
  Stack.foldl_push_sp c.stack (pushRegs.map c.reg)

/-- A function that keeps to the calling convention returns to the stack it was called on. -/
theorem CallingConvention.returns {f : Callee} (hf : CallingConvention f) {call c' : Cpu}
    (hbody : f.body (call.push f.ret) = some c') {ws : List Word} (h : Holds call.stack ws)
    (hlen : ws.length ≤ 23) :
    c'.stack.top = f.ret ∧ (c'.drop 1).stack.sp = call.stack.sp ∧ Holds (c'.drop 1).stack ws := by
  have hsp : c'.stack.sp = (call.push f.ret).stack.sp := hf.stackPointer _ _ hbody
  have hcall : Holds (call.push f.ret).stack (f.ret :: ws) := h.push f.ret (by omega)
  -- The function may have used the stack below, but not what it found on it.
  have hback : Holds c'.stack (f.ret :: ws) :=
    hcall.congr hsp (fun i hi => hf.above _ _ hbody i (by rw [List.length_cons] at hi; omega))
  refine ⟨hback.top, ?_, @Holds.drop c'.stack [f.ret] ws hback⟩
  calc
    (c'.drop 1).stack.sp
        = slot (call.push f.ret).stack.sp 1 := congrArg (fun sp => slot sp 1) hsp
    _ = call.stack.sp := by rw [Cpu.push, Stack.slot_push, slot_zero]

theorem run_callState (f : Callee) (c : Cpu) :
    run f isrCommon c =
      run f (.call :: (popRegs.map .pop ++ [.addRsp 16, .iretq])) (callState c) := by
  rw [isrCommon, List.append_assoc, List.append_assoc, run_pushes]
  rfl

/-- `isr_common` calls the function once, whatever that does. -/
theorem run_isrCommon_calls (f : Callee) (c : Cpu) :
    (run f isrCommon c).calls = [callState c] := by
  rw [run_callState, run]
  cases f.body ((callState c).push f.ret) with
  | none =>
      rfl
  | some c' =>
      simp only [run_pops]
      split
      · rfl
      · rfl

/-- When the function returns, `isr_common` restores the registers and takes two words from the
stack. -/
theorem run_isrCommon_iret {f : Callee} (hf : CallingConvention f) {c : Cpu} {v e : Word}
    {ws : List Word} (h : Holds c.stack (v :: e :: ws)) (hlen : ws.length ≤ 6)
    (hreturns : f.body ((callState c).push f.ret) ≠ none) :
    ∃ exit, (run f isrCommon c).iret = some exit ∧ exit.stack.sp = slot c.stack.sp 2 ∧
      Holds exit.stack ws ∧ exit.reg = c.reg := by
  have hcall : Holds (callState c).stack (popRegs.map c.reg ++ v :: e :: ws) :=
    callState_holds h (by simp only [List.length_cons]; omega)
  obtain ⟨c', hbody⟩ := Option.ne_none_iff_exists'.1 hreturns
  obtain ⟨hret, hsp, hback⟩ := hf.returns hbody hcall (by
    rw [List.length_append, List.length_map, popRegs_length, List.length_cons, List.length_cons]
    omega)
  obtain ⟨hstack, hreg⟩ := foldl_pop hback
  -- `add rsp, 16` takes two words off.
  have hiret : (run f isrCommon c).iret =
      some { popRegs.foldl Cpu.pop (c'.drop 1) with
        stack := (popRegs.foldl Cpu.pop (c'.drop 1)).stack.drop 2 } := by
    rw [run_callState, run, hbody]
    simp only [hret, if_true, run_pops]
    rfl
  refine ⟨_, hiret, ?_, ?_, ?_⟩
  · rw [Stack.drop_sp, hstack, Stack.drop_sp, hsp, popRegs_length, callState_sp]
  · have hpopped : Holds (popRegs.foldl Cpu.pop (c'.drop 1)).stack (v :: e :: ws) := by
      rw [hstack]
      simpa using hback.drop
    exact @Holds.drop _ [v, e] ws hpopped
  · -- Every register is popped, the callee-saved ones too.
    funext r
    rw [hreg r, if_pos (mem_popRegs r)]

/-! ## What the handler sees -/

/-- The context from its twenty words. -/
theorem load_eq {mem : Word → Word} {ctx : Word} {w : Nat → Word}
    (h : ∀ i, i < 20 → mem (slot ctx i) = w i) :
    IdtCtx.load mem ctx =
      { r15 := w 0, r14 := w 1, r13 := w 2, r12 := w 3, r11 := w 4, r10 := w 5, r9 := w 6
        r8 := w 7, rdi := w 8, rsi := w 9, rbp := w 10, rdx := w 11, rcx := w 12, rbx := w 13
        rax := w 14, vector := w 15, errc := w 16, rip := w 17, cs := w 18, rflags := w 19 } := by
  apply IdtCtx.ext <;> exact h _ (by decide)

/-- The context is read above the return address. -/
theorem load_push (s : Stack) (v : Word) :
    IdtCtx.load (s.push v).mem s.sp = IdtCtx.load s.mem s.sp :=
  load_eq (fun i hi => s.push_mem v (by omega))

/-- The fields of the context are the words on the stack, `r15` on top. -/
theorem load_of_holds {s : Stack} {reg : Reg → Word} {v e rip cs rflags : Word} {ws : List Word}
    (h : Holds s (popRegs.map reg ++ v :: e :: rip :: cs :: rflags :: ws)) :
    IdtCtx.load s.mem s.sp =
      { r15 := reg .r15, r14 := reg .r14, r13 := reg .r13, r12 := reg .r12, r11 := reg .r11
        r10 := reg .r10, r9 := reg .r9, r8 := reg .r8, rdi := reg .rdi, rsi := reg .rsi
        rbp := reg .rbp, rdx := reg .rdx, rcx := reg .rcx, rbx := reg .rbx, rax := reg .rax
        vector := v, errc := e, rip := rip, cs := cs, rflags := rflags } := by
  refine load_eq
    (w := fun i => (popRegs.map reg ++ v :: e :: rip :: cs :: rflags :: ws).getD i 0) ?_
  intro i hi
  have hlen : i < (popRegs.map reg ++ v :: e :: rip :: cs :: rflags :: ws).length := by
    rw [List.length_append, List.length_map, popRegs_length]
    simp only [List.length_cons]
    omega
  have hword := List.getElem?_eq_getElem hlen
  simp only [List.getD_eq_getElem?_getD, hword, Option.getD_some]
  exact h.at_slot hword

theorem callState_rdi (c : Cpu) : (callState c).reg .rdi = (callState c).stack.sp := by
  simp only [callState, Function.update_self]

/-- `interrupt_dispatch` is given a pointer to the words on the stack. -/
theorem callState_load (c : Cpu) (ret : Word) :
    IdtCtx.load ((callState c).push ret).stack.mem ((callState c).reg .rdi) =
      IdtCtx.load (callState c).stack.mem (callState c).stack.sp := by
  rw [callState_rdi]
  exact load_push (callState c).stack ret

/-! ## Alignment -/

theorem aligned_iff (a : Word) : a &&& 15 = 0 ↔ a.toNat % 16 = 0 := by
  have hmask : (15 : Word).toNat = 2 ^ 4 - 1 := rfl
  rw [← BitVec.toNat_inj, BitVec.toNat_and, hmask, Nat.and_two_pow_sub_one_eq_mod]
  rfl

theorem toNat_slot (a : Word) (i : Nat) : (slot a i).toNat = (a.toNat + 8 * i) % 2 ^ 64 := by
  rw [slot, BitVec.toNat_add, BitVec.toNat_ofNat, Nat.add_mod_mod]

theorem Interrupted.aligned_sp (x : Interrupted) : x.aligned.sp &&& 15 = 0 := by
  show x.cpu.stack.sp &&& ~~~15 &&& 15 = 0
  have hmask : (~~~15 : Word) &&& 15 = 0 := by decide
  rw [BitVec.and_assoc, hmask]
  exact BitVec.and_zero

/-- Below an aligned address the slots are aligned and not aligned in turn. -/
theorem aligned_slot {a b : Word} {n : Nat} (hb : b &&& 15 = 0) (h : slot a n = b) :
    a &&& 15 = 0 ↔ n % 2 = 0 := by
  rw [aligned_iff] at hb ⊢
  rw [← h, toNat_slot] at hb
  omega

/-! ## Entry and exit -/

/-- What the stub pushes before `isr_common`. -/
def stubWords (vec : Nat) : List Word :=
  if vec ∈ isrErrVectors then [BitVec.ofNat 64 vec] else [0, BitVec.ofNat 64 vec]

/-- All that is pushed before `isr_common`. -/
def Interrupted.pushed (x : Interrupted) (vec : Nat) (errc : Word) : List Word :=
  x.frame ++ (if vec ∈ errorCodeVectors then [errc] else []) ++ stubWords vec

/-- The state at `isr_common`. -/
def Interrupted.atCommon (x : Interrupted) (vec : Nat) (errc : Word) : Cpu :=
  { x.cpu with stack := (x.pushed vec errc).foldl Stack.push x.aligned }

theorem run_isrCode (f : Callee) (x : Interrupted) (vec : Nat) (errc : Word) :
    run f (isrCode vec) (x.enter vec errc) = run f isrCommon (x.atCommon vec errc) := by
  rw [Interrupted.atCommon, Interrupted.pushed, List.foldl_append, isrCode, stubWords]
  split
  · rfl
  · rfl

theorem pushed_length (x : Interrupted) (vec : Nat) (errc : Word) :
    (x.pushed vec errc).length =
      5 + (if vec ∈ errorCodeVectors then 1 else 0) + (if vec ∈ isrErrVectors then 1 else 2) := by
  unfold Interrupted.pushed stubWords Interrupted.frame
  split <;> split <;> rfl

theorem atCommon_holds (x : Interrupted) (vec : Nat) (errc : Word) :
    Holds (x.atCommon vec errc).stack (x.pushed vec errc).reverse := by
  have hlen : (x.pushed vec errc).length ≤ 8 := by
    rw [pushed_length]
    split <;> split <;> decide
  have hall := (holds_nil x.aligned).pushAll (x.pushed vec errc)
    (by rw [List.length_nil]; omega)
  rwa [List.append_nil] at hall

theorem atCommon_sp (x : Interrupted) (vec : Nat) (errc : Word) :
    slot (x.atCommon vec errc).stack.sp (x.pushed vec errc).length = x.aligned.sp :=
  Stack.foldl_push_sp x.aligned (x.pushed vec errc)

/-- The state at the call, from the aligned stack. -/
theorem callState_slot (x : Interrupted) (vec : Nat) (errc : Word) :
    slot (callState (x.atCommon vec errc)).stack.sp (15 + (x.pushed vec errc).length) =
      x.aligned.sp := by
  rw [← slot_slot, callState_sp, atCommon_sp]

/-- Where the processor pushes an error code, the stub is an `ISR_ERR`, but for the vectors 29 and
30. -/
theorem mem_errorCodeVectors (vec : Nat) :
    vec ∈ errorCodeVectors ↔ vec ∈ isrErrVectors ∨ vec = 29 ∨ vec = 30 := by
  simp only [errorCodeVectors, isrErrVectors, List.mem_cons, List.not_mem_nil, or_false]
  omega

/-- The stack at the call is aligned, but for these two. -/
theorem callState_aligned (x : Interrupted) (vec : Nat) (errc : Word) :
    (callState (x.atCommon vec errc)).stack.sp &&& 15 = 0 ↔ vec ≠ 29 ∧ vec ≠ 30 := by
  rw [aligned_slot x.aligned_sp (callState_slot x vec errc), pushed_length]
  have hmem := mem_errorCodeVectors vec
  by_cases herr : vec ∈ isrErrVectors
  · have hother : vec ≠ 29 ∧ vec ≠ 30 := by
      constructor
      · rintro rfl
        exact absurd herr (by decide)
      · rintro rfl
        exact absurd herr (by decide)
    rw [if_pos herr, if_pos (hmem.2 (.inl herr))]
    exact iff_of_true rfl hother
  · by_cases hbad : vec = 29 ∨ vec = 30
    · -- The processor's error code and the zero of the stub are both there.
      rw [if_neg herr, if_pos (hmem.2 (.inr hbad))]
      refine iff_of_false (by decide) (fun h => ?_)
      exact hbad.elim h.1 h.2
    · have hnone : vec ∉ errorCodeVectors := fun h => (hmem.1 h).elim herr hbad
      rw [if_neg herr, if_neg hnone]
      exact iff_of_true rfl (not_or.1 hbad)

/-- For the other vectors the words are the vector, the error code and the frame. -/
theorem pushed_reverse {vec : Nat} (hvec : vec ≠ 29 ∧ vec ≠ 30) (x : Interrupted) (errc : Word) :
    (x.pushed vec errc).reverse =
      BitVec.ofNat 64 vec :: (if vec ∈ errorCodeVectors then errc else 0) :: x.frame.reverse := by
  have hiff : vec ∈ errorCodeVectors ↔ vec ∈ isrErrVectors := by
    simp [mem_errorCodeVectors, hvec]
  by_cases herr : vec ∈ isrErrVectors
  · simp [Interrupted.pushed, stubWords, herr, hiff.2 herr]
  · have hnone : vec ∉ errorCodeVectors := fun h => herr (hiff.1 h)
    simp [Interrupted.pushed, stubWords, herr, hnone]

/-- The handler sees the context of the interrupt. -/
theorem callState_ctx {vec : Nat} (hvec : vec ≠ 29 ∧ vec ≠ 30) (x : Interrupted)
    (errc ret : Word) :
    IdtCtx.load ((callState (x.atCommon vec errc)).push ret).stack.mem
      ((callState (x.atCommon vec errc)).reg .rdi) = x.ctx vec errc := by
  have hholds := atCommon_holds x vec errc
  have hframe : x.frame.reverse = [x.rip, x.cs, x.rflags, x.cpu.stack.sp, x.ss] := rfl
  rw [pushed_reverse hvec, hframe] at hholds
  rw [callState_load, load_of_holds (callState_holds hholds (by simp))]
  rfl

/-- Interrupts are transparent, for every handler that keeps to the calling convention, wherever
the stubs are, and whatever is interrupted, exactly for the vectors other than 29 and 30. -/
theorem interrupt_transparent_iff (f : Callee) (hf : CallingConvention f) (idt : Idt)
    (isr : Nat → Word) (x : Interrupted) (vec : Nat) (hvec : vec < 48) (errc : Word) :
    Transparent f idt isr x vec errc ↔ vec ≠ 29 ∧ vec ≠ 30 := by
  have hcalls : (run f (isrCode vec) (x.enter vec errc)).calls =
      [callState (x.atCommon vec errc)] := by
    rw [run_isrCode, run_isrCommon_calls]
  constructor
  · -- The alignment alone excludes the two vectors.
    rintro ⟨-, call, hcall, haligned, -⟩
    obtain rfl : callState (x.atCommon vec errc) = call :=
      List.singleton_inj.1 (hcalls.symm.trans hcall)
    exact (callState_aligned x vec errc).1 haligned
  · intro hgood
    have hholds := atCommon_holds x vec errc
    have hsp := atCommon_sp x vec errc
    rw [← List.length_reverse, pushed_reverse hgood] at hsp
    rw [pushed_reverse hgood] at hholds
    refine ⟨gateOffset_idtInit idt isr hvec, callState (x.atCommon vec errc), hcalls,
      (callState_aligned x vec errc).2 hgood, callState_ctx hgood x errc f.ret, fun hreturns => ?_⟩
    obtain ⟨exit, hiret, hexitSp, hframe, hreg⟩ :=
      run_isrCommon_iret hf hholds (by simp [Interrupted.frame]) hreturns
    refine ⟨exit, by rw [run_isrCode, hiret], ?_, hframe, hreg⟩
    -- Two words were taken off, and the five of the frame are left.
    rw [hexitSp, slot_slot]
    exact hsp

/-! ## Two interrupts -/

/-- A handler that returns at once. -/
def returnsAtOnce : Callee :=
  { body := some, ret := 0x100400 }

theorem returnsAtOnce_convention : CallingConvention returnsAtOnce where
  stackPointer := by
    rintro c _ ⟨⟩
    rfl
  calleeSaved := by
    rintro c _ ⟨⟩ _ _
    rfl
  above := by
    rintro c _ ⟨⟩ _ _
    rfl

/-- A program in the kernel, on a stack that is not aligned. -/
def inKernel : Interrupted :=
  { cpu := { reg := fun _ => 7, stack := { sp := 0x90008, mem := fun _ => 0 } }
    ss := 0x10, rflags := 0x202, cs := 0x08, rip := 0x100200 }

/-- The table before `idt_init`. -/
def emptyIdt : Idt := fun _ => ⟨0, 0, 0, 0, 0, 0, 0⟩

/-- The keyboard interrupt. -/
theorem interrupt_transparent_iff_keyboard :
    Transparent returnsAtOnce emptyIdt (fun vec => 0x100000 + BitVec.ofNat 64 (16 * vec)) inKernel
      33 0 :=
  (interrupt_transparent_iff returnsAtOnce returnsAtOnce_convention emptyIdt _ inKernel 33
    (by decide) 0).2 (by decide)

/-- A security exception with the error code 2: the stub calls the handler on a stack that is not
aligned, the handler sees the error code for `rip`, and `iretq` takes it for the return address. -/
theorem securityException_not_transparent :
    CallingConvention returnsAtOnce ∧
      ¬ Transparent returnsAtOnce emptyIdt (fun vec => 0x100000 + BitVec.ofNat 64 (16 * vec))
        inKernel 30 2 ∧
      (run returnsAtOnce (isrCode 30) (inKernel.enter 30 2)).calls.map
          (fun c => (IdtCtx.load c.stack.mem c.stack.sp).rip) = [2] ∧
      (run returnsAtOnce (isrCode 30) (inKernel.enter 30 2)).iret.map (fun c => c.stack.top) =
        some 2 := by
  refine ⟨returnsAtOnce_convention, fun h => ?_, by decide +kernel, by decide +kernel⟩
  obtain ⟨call, hcalls, haligned, -⟩ := h.entry
  rw [run_isrCode, run_isrCommon_calls] at hcalls
  rw [← List.singleton_inj.1 hcalls] at haligned
  exact absurd ((callState_aligned inKernel 30 2).1 haligned) (by decide)

end Interrupt
end Feudos
