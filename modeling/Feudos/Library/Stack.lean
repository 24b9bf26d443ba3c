import Mathlib.Algebra.Group.Nat.Defs
import Mathlib.Logic.Function.Basic

/-!
# A stack of 64-bit words

A memory of 64-bit words with a stack pointer that goes down by eight bytes for each word.

- `slot`          : the address of the word `i` places above another one;
- `Holds s ws`    : the words from the top of the stack up are `ws`;
- `Holds.push`, `Holds.pushAll`, `Holds.top`, `Holds.drop` : what pushing and popping do to them.

Addresses are taken modulo `2 ^ 64`, so the results hold for stacks that wrap, as long as they are
shorter than the address space.
-/

namespace WordStack

abbrev Word := BitVec 64

/-- The address `i` words above `a`. -/
def slot (a : Word) (i : Nat) : Word :=
  a + BitVec.ofNat 64 (8 * i)

@[simp] theorem slot_zero (a : Word) : slot a 0 = a := by
  simp [slot]

theorem slot_slot (a : Word) (i j : Nat) : slot (slot a i) j = slot a (i + j) := by
  rw [slot, slot, slot, BitVec.add_assoc, ← BitVec.ofNat_add, ← Nat.mul_add]

/-- Different slots of a stack are different words. -/
theorem slot_inj {a : Word} {i j : Nat} (hi : i < 2 ^ 61) (hj : j < 2 ^ 61)
    (h : slot a i = slot a j) : i = j := by
  -- The distances are below `2 ^ 64`, so they do not wrap.
  have hEq := congrArg BitVec.toNat ((BitVec.add_right_inj a).1 h)
  rw [BitVec.toNat_ofNat, BitVec.toNat_ofNat] at hEq
  omega

/-! ## Stacks -/

structure Stack where
  sp : Word
  mem : Word → Word

namespace Stack

def push (s : Stack) (v : Word) : Stack :=
  { sp := s.sp - 8
    mem := Function.update s.mem (s.sp - 8) v }

/-- The word on top. -/
def top (s : Stack) : Word := s.mem s.sp

/-- Take `n` words off. -/
def drop (s : Stack) (n : Nat) : Stack :=
  { s with sp := slot s.sp n }

@[simp] theorem drop_sp (s : Stack) (n : Nat) : (s.drop n).sp = slot s.sp n := rfl

@[simp] theorem drop_mem (s : Stack) (n : Nat) : (s.drop n).mem = s.mem := rfl

theorem slot_push (s : Stack) (v : Word) (i : Nat) :
    slot (s.push v).sp (i + 1) = slot s.sp i := by
  have hone : slot (s.push v).sp 1 = s.sp := BitVec.sub_add_cancel s.sp 8
  rw [Nat.add_comm, ← slot_slot, hone]

@[simp] theorem push_top (s : Stack) (v : Word) : (s.push v).top = v := by
  simp [top, push]

/-- A push leaves the words above it alone. -/
theorem push_mem (s : Stack) (v : Word) {i : Nat} (hi : i + 1 < 2 ^ 61) :
    (s.push v).mem (slot s.sp i) = s.mem (slot s.sp i) := by
  have hne : slot s.sp i ≠ s.sp - 8 := by
    intro hEq
    -- From the new stack pointer they are the slots `i + 1` and 0.
    have hslot : slot (s.push v).sp (i + 1) = slot (s.push v).sp 0 := by
      rw [slot_push, slot_zero]
      exact hEq
    exact absurd (slot_inj hi (by decide) hslot) (Nat.succ_ne_zero i)
  exact Function.update_of_ne hne v s.mem

theorem foldl_push_sp (s : Stack) (vs : List Word) :
    slot (vs.foldl push s).sp vs.length = s.sp := by
  induction vs generalizing s with
  | nil =>
      exact slot_zero s.sp
  | cons v vs ih =>
      calc
        slot ((v :: vs).foldl push s).sp (v :: vs).length
            = slot (slot (vs.foldl push (s.push v)).sp vs.length) 1 := by
              rw [slot_slot, List.foldl_cons, List.length_cons]
        _ = slot (s.push v).sp 1 := by rw [ih]
        _ = s.sp := by rw [slot_push, slot_zero]

end Stack

/-! ## The words on a stack -/

/-- The words from the top of the stack up. -/
def Holds (s : Stack) (ws : List Word) : Prop :=
  ∀ i, i < ws.length → ws[i]? = some (s.mem (slot s.sp i))

variable {s s' : Stack} {v : Word} {us ws : List Word}

theorem holds_nil (s : Stack) : Holds s [] :=
  fun _ hi => absurd hi (Nat.not_lt_zero _)

theorem Holds.at_slot (h : Holds s ws) {i : Nat} {w : Word} (hw : ws[i]? = some w) :
    s.mem (slot s.sp i) = w := by
  have hi : i < ws.length := (List.getElem?_eq_some_iff.1 hw).1
  exact Option.some.inj ((h i hi).symm.trans hw)

theorem Holds.push (h : Holds s ws) (v : Word) (hlen : ws.length + 1 < 2 ^ 61) :
    Holds (s.push v) (v :: ws) := by
  intro i hi
  cases i with
  | zero =>
      rw [slot_zero]
      exact congrArg some (s.push_top v).symm
  | succ i =>
      have hi' : i < ws.length := Nat.lt_of_succ_lt_succ hi
      rw [Stack.slot_push, s.push_mem v (by omega), List.getElem?_cons_succ]
      exact h i hi'

theorem Holds.pushAll (h : Holds s ws) (vs : List Word) (hlen : vs.length + ws.length < 2 ^ 61) :
    Holds (vs.foldl Stack.push s) (vs.reverse ++ ws) := by
  induction vs generalizing s ws with
  | nil =>
      exact h
  | cons v vs ih =>
      rw [List.length_cons] at hlen
      have hrest := ih (h.push v (by omega)) (by rw [List.length_cons]; omega)
      rw [List.reverse_cons, List.append_assoc]
      exact hrest

theorem Holds.top (h : Holds s (v :: ws)) : s.top = v := by
  have hslot := h.at_slot (i := 0) rfl
  rwa [slot_zero] at hslot

theorem Holds.drop (h : Holds s (us ++ ws)) : Holds (s.drop us.length) ws := by
  intro i hi
  have hslot := h (us.length + i) (by rw [List.length_append]; omega)
  rw [List.getElem?_append_right (Nat.le_add_right _ _), Nat.add_sub_cancel_left] at hslot
  rw [Stack.drop_sp, Stack.drop_mem, slot_slot]
  exact hslot

/-- The words are the same in a memory that agrees on them. -/
theorem Holds.congr (h : Holds s ws) (hsp : s'.sp = s.sp)
    (hmem : ∀ i, i < ws.length → s'.mem (slot s.sp i) = s.mem (slot s.sp i)) : Holds s' ws := by
  intro i hi
  rw [hsp, hmem i hi]
  exact h i hi

end WordStack
