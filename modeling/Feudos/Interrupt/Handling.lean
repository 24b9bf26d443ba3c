import Feudos.Interrupt.Delivery

/-!
# Handlers from the gate to `iretq`

`System.act` takes a handler as one action: a call of `interrupt_dispatch` with the context of what
is interrupted.  Here that action is the code of the stub, from the processor's frame on.

- `stub_handles`        : what the code of a stub does with the frame;
- `handled_by_stub`     : in every run, the gate of a handler leads to its stub, the stub makes that
  call, and `iretq` goes back to the kernel with its registers;
- `exceptions_reported` : the same for the exceptions, and what they report.
-/

namespace Feudos
namespace Interrupt

open Devices WordStack

/-! ## The code of a stub -/

/-- The stubs that push what their vectors need call `interrupt_dispatch` once, on an aligned stack,
with the context of what is interrupted; and when the compiled function returns, `iretq` finds the
processor's frame and the registers. -/
theorem stub_handles {f : Callee} (hf : CallingConvention f) (x : Interrupted) {vec : Nat}
    (hvec : vec ≠ 29 ∧ vec ≠ 30) (errc : Word) :
    ∃ call, (run f (isrCode vec) (x.enter vec errc)).calls = [call] ∧ call.stack.sp &&& 15 = 0 ∧
      IdtCtx.load (call.push f.ret).stack.mem (call.reg .rdi) = x.ctx vec errc ∧
      (f.body (call.push f.ret) ≠ none →
        ∃ exit, (run f (isrCode vec) (x.enter vec errc)).iret = some exit ∧
          slot exit.stack.sp 5 = x.aligned.sp ∧ WordStack.Holds exit.stack x.frame.reverse ∧
          exit.reg = x.cpu.reg) := by
  refine ⟨callState (x.atCommon vec errc), ?_, (callState_aligned x vec errc).2 hvec,
    callState_ctx hvec x errc f.ret, fun hreturns => ?_⟩
  · rw [run_isrCode, run_isrCommon_calls]
  · have hholds := atCommon_holds x vec errc
    have hsp := atCommon_sp x vec errc
    rw [← List.length_reverse, pushed_reverse hvec] at hsp
    rw [pushed_reverse hvec] at hholds
    obtain ⟨exit, hiret, hexitSp, hframe, hreg⟩ :=
      run_isrCommon_iret hf hholds (by simp [Interrupted.frame]) hreturns
    refine ⟨exit, by rw [run_isrCode, hiret], ?_, hframe, hreg⟩
    -- The vector and the error code were taken off, and the five words of the frame are left.
    rw [hexitSp, slot_slot]
    exact hsp

/-! ## Interrupts -/

/-- The vectors of the controllers have stubs that push a zero for the error code. -/
theorem line_vectors {v : UInt8} {l : Line} (hv : v.toNat = 0x20 + (irqOf l).toNat) :
    v.toNat < 48 ∧ v.toNat ≠ 29 ∧ v.toNat ≠ 30 := by
  have hirq : (irqOf l).toNat < 16 := by
    have hall : ∀ i : Fin 8, (irqOf (.master i)).toNat < 16 ∧ (irqOf (.slave i)).toNat < 16 := by
      decide
    cases l with
    | master i =>
        exact (hall i).1
    | slave i =>
        exact (hall i).2
  omega

/-- The processor that has booted, and the system after a run. -/
theorem booted_run (m : PowerOn) (acts : List SysAction) :
    ∃ b s, m.booting = some b ∧ b.cpu = bootedCpu m.cpu m.isr ∧ m.run acts = some s ∧
      s.Sound (decide (m.platform.keyboard.queue = [])) := by
  rcases run_sound m.system_sound acts with ⟨s, hrun, hsound, -, -⟩
  have hbooting : ∃ b, m.booting = some b ∧ b.cpu = bootedCpu m.cpu m.isr := by
    rw [PowerOn.booting, kernelMain_eq]
    exact ⟨_, rfl, rfl⟩
  rcases hbooting with ⟨b, hbooting, hcpu⟩
  exact ⟨b, s, hbooting, hcpu, by rw [m.run_eq]; exact hrun, hsound⟩

/-- In every run, whatever of the kernel is interrupted: when the processor is about to handle a
vector, its gate leads to the stub of that vector through the kernel's code segment; the stub calls
`interrupt_dispatch` once, on an aligned stack; what it finds through its pointer makes that call
the action of the system, and it returns `true`, so it does not halt; and when the compiled function
returns, `iretq` finds the processor's frame and the registers of the kernel. -/
theorem handled_by_stub (m : PowerOn) (acts : List SysAction) (f : Callee)
    (hf : CallingConvention f) (x : Interrupted) (cr2 : UInt64) :
    ∃ b s, m.booting = some b ∧ m.run acts = some s ∧ ∀ v, s.mode = .handling v →
      b.cpu.target v.toNat = some (m.isr v.toNat) ∧
      ∃ call core,
        (run f (isrCode v.toNat) (x.enter v.toNat 0)).calls = [call] ∧
        call.stack.sp &&& 15 = 0 ∧
        interruptDispatch Platform.bus cr2
          (IdtCtx.load (call.push f.ret).stack.mem (call.reg .rdi)) s.core = some (core, true) ∧
        s.act (.handle x cr2) = some (s.leave core true) ∧
        (f.body (call.push f.ret) ≠ none →
          ∃ exit, (run f (isrCode v.toNat) (x.enter v.toNat 0)).iret = some exit ∧
            slot exit.stack.sp 5 = x.aligned.sp ∧ WordStack.Holds exit.stack x.frame.reverse ∧
            exit.reg = x.cpu.reg) := by
  rcases booted_run m acts with ⟨b, s, hbooting, hcpu, hrun, hsound⟩
  refine ⟨b, s, hbooting, hrun, fun v hmode => ?_⟩
  rcases handle_sound hsound hmode x cr2 with ⟨l, rfl, hact, -, -⟩
  have hline := vector_toNat hsound.wired l
  rcases line_vectors hline with ⟨hlt, hvec⟩
  have hvector : (x.ctx (s.platform.pics.vector l).toNat 0).vector.toNat =
      0x20 + (irqOf l).toNat := by
    simp only [Interrupted.ctx, BitVec.toNat_ofNat]
    omega
  rcases stub_handles hf x hvec 0 with ⟨call, hcalls, haligned, hctx, hiret⟩
  refine ⟨by rw [hcpu]; exact bootedCpu_stub m.cpu m.isr hlt, call, _, hcalls, haligned, ?_, hact,
    hiret⟩
  rw [hctx]
  exact interruptDispatch_line cr2 hvector s.core

theorem handled_by_stub_keyboard :
    ∃ b s, resetPower.booting = some b ∧
      resetPower.run [.press 0x1E, .accept, .acknowledge] = some s ∧
      ∀ v, s.mode = .handling v →
      b.cpu.target v.toNat = some (resetPower.isr v.toNat) ∧
      ∃ call core,
        (run returnsAtOnce (isrCode v.toNat) (inKernel.enter v.toNat 0)).calls = [call] ∧
        call.stack.sp &&& 15 = 0 ∧
        interruptDispatch Platform.bus 0
          (IdtCtx.load (call.push returnsAtOnce.ret).stack.mem (call.reg .rdi)) s.core =
            some (core, true) ∧
        s.act (.handle inKernel 0) = some (s.leave core true) ∧
        (returnsAtOnce.body (call.push returnsAtOnce.ret) ≠ none →
          ∃ exit, (run returnsAtOnce (isrCode v.toNat) (inKernel.enter v.toNat 0)).iret =
              some exit ∧
            slot exit.stack.sp 5 = inKernel.aligned.sp ∧
            WordStack.Holds exit.stack inKernel.frame.reverse ∧ exit.reg = inKernel.cpu.reg) :=
  handled_by_stub resetPower [.press 0x1E, .accept, .acknowledge] returnsAtOnce
    returnsAtOnce_convention inKernel 0

/-! ## Exceptions -/

/-- In every run, wherever in the kernel an exception is raised: its gate leads to its stub through
the kernel's code segment; the stub calls `interrupt_dispatch` once, on an aligned stack; that
changes nothing but the terminal, which gets the report of what the processor has saved; it returns
exactly if the report does not end in a panic; and when the compiled function returns, `iretq` finds
the frame and the registers.  Two vectors are left out, whose stubs push a word too much. -/
theorem exceptions_reported (m : PowerOn) (acts : List SysAction) (f : Callee)
    (hf : CallingConvention f) (x : Interrupted) (cr2 : UInt64) (vec : Nat) (errc : Word)
    (hlt : vec < 32) (hvec : vec ≠ 29 ∧ vec ≠ 30) :
    ∃ b s, m.booting = some b ∧ m.run acts = some s ∧ b.cpu.target vec = some (m.isr vec) ∧
      ∃ call,
        (run f (isrCode vec) (x.enter vec errc)).calls = [call] ∧
        call.stack.sp &&& 15 = 0 ∧
        interruptDispatch Platform.bus cr2
            (IdtCtx.load (call.push f.ret).stack.mem (call.reg .rdi)) s.core =
          some (s.core.print (applyReport (exceptionReport cr2 (x.ctx vec errc))),
            (exceptionReport cr2 (x.ctx vec errc)).2.isNone) ∧
        (f.body (call.push f.ret) ≠ none →
          ∃ exit, (run f (isrCode vec) (x.enter vec errc)).iret = some exit ∧
            slot exit.stack.sp 5 = x.aligned.sp ∧ WordStack.Holds exit.stack x.frame.reverse ∧
            exit.reg = x.cpu.reg) := by
  rcases booted_run m acts with ⟨b, s, hbooting, hcpu, hrun, -⟩
  rcases stub_handles hf x hvec errc with ⟨call, hcalls, haligned, hctx, hiret⟩
  have hvector : (x.ctx vec errc).vector.toNat = vec := by
    simp only [Interrupted.ctx, BitVec.toNat_ofNat]
    omega
  refine ⟨b, s, hbooting, hrun, ?_, call, hcalls, haligned, ?_, hiret⟩
  · rw [hcpu]
    exact bootedCpu_stub m.cpu m.isr (by omega)
  · rw [hctx]
    exact interruptDispatch_exception Platform.bus cr2 (by rw [hvector]; omega) s.core

/-- A page fault at address 0. -/
theorem exceptions_reported_pageFault :
    ∃ b s, resetPower.booting = some b ∧ resetPower.run [] = some s ∧
      b.cpu.target 0x0E = some (resetPower.isr 0x0E) ∧
      ∃ call,
        (run returnsAtOnce (isrCode 0x0E) (inKernel.enter 0x0E 2)).calls = [call] ∧
        call.stack.sp &&& 15 = 0 ∧
        interruptDispatch Platform.bus 0
            (IdtCtx.load (call.push returnsAtOnce.ret).stack.mem (call.reg .rdi)) s.core =
          some (s.core.print (applyReport (exceptionReport 0 (inKernel.ctx 0x0E 2))), false) ∧
        (returnsAtOnce.body (call.push returnsAtOnce.ret) ≠ none →
          ∃ exit, (run returnsAtOnce (isrCode 0x0E) (inKernel.enter 0x0E 2)).iret = some exit ∧
            slot exit.stack.sp 5 = inKernel.aligned.sp ∧
            WordStack.Holds exit.stack inKernel.frame.reverse ∧ exit.reg = inKernel.cpu.reg) :=
  exceptions_reported resetPower [] returnsAtOnce returnsAtOnce_convention inKernel 0 0x0E 2
    (by decide) (by decide)

end Interrupt
end Feudos
