import Feudos.Library.Stack

/-!
# The instructions of the interrupt stubs

The part of the processor that `isr.s` uses: the general registers, and the stack in memory.  Every
address that the stubs use is a multiple of eight bytes away from the stack pointer, so the memory
is one of words.

- `run`        : the code of a stub, with the function it calls as a parameter;
- `run_pushes`, `run_pops` : sequences of pushes and of pops;
- `foldl_pop`  : pops give the registers the words on the stack.
-/

namespace Feudos
namespace Interrupt

open WordStack

/-! ## Processor state -/

/-- The general registers but `rsp`. -/
inductive Reg
  | rax | rbx | rcx | rdx | rbp | rsi | rdi
  | r8 | r9 | r10 | r11 | r12 | r13 | r14 | r15
  deriving DecidableEq

structure Cpu where
  reg : Reg → Word
  stack : Stack

namespace Cpu

def push (c : Cpu) (v : Word) : Cpu :=
  { c with stack := c.stack.push v }

def drop (c : Cpu) (n : Nat) : Cpu :=
  { c with stack := c.stack.drop n }

def pop (c : Cpu) (r : Reg) : Cpu :=
  { reg := Function.update c.reg r c.stack.top, stack := c.stack.drop 1 }

end Cpu

/-! ## Code -/

inductive Instr
  | pushImm (v : Word)
  | push (r : Reg)
  | pop (r : Reg)
  | movRsp (r : Reg)
  | addRsp (n : Word)
  | call
  | iretq

/-- The function that the code calls: from its first instruction to its `ret`, or `none` when it
does not get there; and the return address of the call. -/
structure Callee where
  body : Cpu → Option Cpu
  ret : Word

/-- The states in which the code calls the function, and the state in which it reaches `iretq`. -/
structure Run where
  calls : List Cpu
  iret : Option Cpu

/-- The code of a stub, from its first instruction on. -/
def run (f : Callee) : List Instr → Cpu → Run
  | [], _ => { calls := [], iret := none }
  | .pushImm v :: code, c => run f code (c.push v)
  | .push r :: code, c => run f code (c.push (c.reg r))
  | .pop r :: code, c => run f code (c.pop r)
  | .movRsp r :: code, c => run f code { c with reg := Function.update c.reg r c.stack.sp }
  | .addRsp n :: code, c => run f code { c with stack := { c.stack with sp := c.stack.sp + n } }
  | .call :: code, c =>
      match f.body (c.push f.ret) with
      | none => { calls := [c], iret := none }
      | some c' =>
          -- `ret` takes the return address from the stack, whatever is there now.
          if c'.stack.top = f.ret then
            let r := run f code (c'.drop 1)
            { calls := c :: r.calls, iret := r.iret }
          else
            { calls := [c], iret := none }
  | .iretq :: _, c => { calls := [], iret := some c }

/-! ## Sequences of pushes and pops -/

theorem run_pushes (f : Callee) (rs : List Reg) (code : List Instr) (c : Cpu) :
    run f (rs.map .push ++ code) c =
      run f code { c with stack := (rs.map c.reg).foldl Stack.push c.stack } := by
  induction rs generalizing c with
  | nil =>
      rfl
  | cons r rs ih =>
      exact ih (c.push (c.reg r))

theorem run_pops (f : Callee) (rs : List Reg) (code : List Instr) (c : Cpu) :
    run f (rs.map .pop ++ code) c = run f code (rs.foldl Cpu.pop c) := by
  induction rs generalizing c with
  | nil =>
      rfl
  | cons r rs ih =>
      exact ih (c.pop r)

/-- Registers that are popped from a stack that holds their values get them. -/
theorem foldl_pop {rs : List Reg} {c : Cpu} {value : Reg → Word} {ws : List Word}
    (h : Holds c.stack (rs.map value ++ ws)) :
    (rs.foldl Cpu.pop c).stack = c.stack.drop rs.length ∧
      ∀ r, (rs.foldl Cpu.pop c).reg r = if r ∈ rs then value r else c.reg r := by
  induction rs generalizing c with
  | nil =>
      exact ⟨by simp [Stack.drop], fun r => by simp⟩
  | cons r₀ rs ih =>
      have htop : c.stack.top = value r₀ := h.top
      have hrest : Holds (c.stack.drop 1) (rs.map value ++ ws) :=
        @Holds.drop c.stack [value r₀] (rs.map value ++ ws) h
      obtain ⟨hstack, hreg⟩ := @ih (c.pop r₀) hrest
      -- A register that is popped twice keeps the later word, which is the same value.
      refine ⟨?_, fun r => ?_⟩
      · rw [List.foldl_cons, hstack, List.length_cons, Nat.add_comm]
        simp [Cpu.pop, Stack.drop, slot_slot]
      · rw [List.foldl_cons, hreg r]
        by_cases hr : r ∈ rs
        · simp [hr]
        · by_cases hfirst : r = r₀
          · simp [hfirst, Cpu.pop, htop]
          · simp [hr, hfirst, Cpu.pop]

end Interrupt
end Feudos
