import Feudos.Util.Text
import Mathlib.Data.List.Basic

/-!
# String functions (`util/str.c`)

A pointer into a string is the list of the bytes from there to the end of the accessible memory.
A function that reads beyond it has no result (`none`), so a result also says that every read was
inside.  Pointers that a function returns are given as offsets from its argument; `strfle` can
return the one before it.

Each function has one lemma for each way its loop can go on or end; `streq_spec` sums up `streq`.
-/

namespace Feudos

/-- The string at a pointer: its bytes before the terminator. -/
def cText (mem : List UInt8) : List UInt8 :=
  mem.takeWhile (· ≠ 0)

/-- `*(p + i) = v`. -/
def store (mem : List UInt8) (i : Int) (v : UInt8) : Option (List UInt8) :=
  if 0 ≤ i ∧ i < mem.length then some (mem.set i.toNat v) else none

/-- No byte of the string ends it early. -/
def NulFree (text : List UInt8) : Prop := (0 : UInt8) ∉ text

instance (text : List UInt8) : Decidable (NulFree text) := inferInstanceAs (Decidable (_ ∉ _))

theorem cText_nul {text : List UInt8} (h : NulFree text) (mem : List UInt8) :
    cText (text ++ 0 :: mem) = text := by
  induction text with
  | nil =>
      simp [cText]
  | cons c text ih =>
      have hc : c ≠ 0 := fun hEq => h (by simp [hEq])
      have hrest : cText (text ++ 0 :: mem) = text :=
        ih (fun hmem => h (List.mem_cons_of_mem _ hmem))
      calc
        cText (c :: text ++ 0 :: mem)
            = c :: cText (text ++ 0 :: mem) :=
              List.takeWhile_cons_of_pos (by simpa using hc)
        _ = c :: text := by rw [hrest]

/-- A buffer with a terminated string at its start. -/
theorem toNul_eq {b : Buffer} {text : List UInt8} {n : Nat} (h : NulFree text)
    (htext : b.slice 0 text.length = text) (hnul : b.get text.length = 0)
    (hn : text.length < n) : b.toNul n = text := by
  obtain ⟨k, rfl⟩ : ∃ k, n = text.length + (k + 1) := ⟨n - text.length - 1, by omega⟩
  have hlast : b.slice text.length (k + 1) = 0 :: b.slice (text.length + 1) k := by
    rw [Buffer.slice_cons, hnul]
  calc
    b.toNul (text.length + (k + 1))
        = cText (b.slice 0 text.length ++ b.slice (0 + text.length) (k + 1)) := by
          rw [← Buffer.slice_add]
          rfl
    _ = cText (text ++ 0 :: b.slice (text.length + 1) k) := by
          rw [htext, Nat.zero_add, hlast]
    _ = text := cText_nul h _

/-! ## `streq` -/

/-- `streq`. -/
def streq : List UInt8 → List UInt8 → Option Bool
  | [], _ => none
  | _ :: _, [] => none
  | x :: a, y :: b =>
      if x ≠ 0 ∧ y ≠ 0 then
        if x ≠ y then some false else streq a b
      else
        some (x == 0 && y == 0)

/-- On two terminated strings `streq` is equality. -/
theorem streq_spec {s t : List UInt8} (hs : NulFree s) (ht : NulFree t) (mem mem' : List UInt8) :
    streq (s ++ 0 :: mem) (t ++ 0 :: mem') = some (decide (s = t)) := by
  induction s generalizing t with
  | nil =>
      cases t with
      | nil =>
          simp [streq]
      | cons y t =>
          have hy : y ≠ 0 := fun hEq => ht (by simp [hEq])
          simp [streq, hy]
  | cons x s ih =>
      have hx : x ≠ 0 := fun hEq => hs (by simp [hEq])
      cases t with
      | nil =>
          -- The second string ends first.
          simp [streq, hx]
      | cons y t =>
          have hy : y ≠ 0 := fun hEq => ht (by simp [hEq])
          have hrest := ih (fun hmem => hs (List.mem_cons_of_mem _ hmem))
            (t := t) (fun hmem => ht (List.mem_cons_of_mem _ hmem))
          rw [List.cons_append, List.cons_append, streq, if_pos ⟨hx, hy⟩]
          by_cases hEq : x = y
          · simp [hEq, hrest]
          · simp [hEq]

/-! ## `strfle` -/

/-- The loop of `strfle`, at offset `cur`. -/
def strfleFrom (sep : UInt8) : Nat → List UInt8 → Option Int
  | _, [] => none
  | cur, c :: mem =>
      -- At offset 0 this is the position before the string.
      if c = 0 then some ((cur : Int) - 1)
      else if c = sep then some (if cur = 0 then 0 else (cur : Int) - 1)
      else strfleFrom sep (cur + 1) mem

/-- `strfle`: the last character of the lexeme at the start of the string. -/
def strfle (a : List UInt8) (sep : UInt8) : Option Int :=
  strfleFrom sep 0 a

/-- A text of lexeme characters: no terminator, no separator. -/
def Lexeme (sep : UInt8) (text : List UInt8) : Prop :=
  ∀ c ∈ text, c ≠ 0 ∧ c ≠ sep

theorem strfleFrom_lexeme {sep : UInt8} {text : List UInt8} (h : Lexeme sep text) (cur : Nat)
    (mem : List UInt8) :
    strfleFrom sep cur (text ++ mem) = strfleFrom sep (cur + text.length) mem := by
  induction text generalizing cur with
  | nil =>
      rfl
  | cons c text ih =>
      have hc := h c (List.mem_cons_self ..)
      have hrest := ih (fun d hd => h d (List.mem_cons_of_mem _ hd)) (cur + 1)
      have hlen : cur + (c :: text).length = cur + 1 + text.length := by
        rw [List.length_cons, Nat.add_right_comm, Nat.add_assoc]
      calc
        strfleFrom sep cur (c :: (text ++ mem))
            = strfleFrom sep (cur + 1) (text ++ mem) := by
              rw [strfleFrom, if_neg hc.1, if_neg hc.2]
        _ = strfleFrom sep (cur + 1 + text.length) mem := hrest
        _ = strfleFrom sep (cur + (c :: text).length) mem := by rw [hlen]

/-- `strfle` ends at the terminator or the separator behind a lexeme. -/
theorem strfle_lexeme {sep : UInt8} {text : List UInt8} (h : Lexeme sep text) (hne : text ≠ [])
    {c : UInt8} (hc : c = 0 ∨ c = sep) (mem : List UInt8) :
    strfle (text ++ c :: mem) sep = some ((text.length : Int) - 1) := by
  have hlen : text.length ≠ 0 := fun hzero => hne (List.length_eq_zero_iff.1 hzero)
  rw [strfle, strfleFrom_lexeme h, Nat.zero_add, strfleFrom]
  by_cases hnul : c = 0
  · rw [if_pos hnul]
  · rw [if_neg hnul, if_pos (hc.resolve_left hnul), if_neg hlen]

/-! ## `strfnl` -/

/-- The loop of `strfnl`, at offset `cur`. -/
def strfnlFrom (sep : UInt8) : Bool → Nat → List UInt8 → Option (Option Nat)
  | _, _, [] => none
  | ended, cur, c :: mem =>
      if c = 0 then some none
      else if c = sep then strfnlFrom sep true (cur + 1) mem
      -- The first character behind a separator.
      else if ended then some (some cur)
      else strfnlFrom sep ended (cur + 1) mem

/-- `strfnl`: the start of the next lexeme, if there is one. -/
def strfnl (a : List UInt8) (sep : UInt8) : Option (Option Nat) :=
  strfnlFrom sep false 0 a

theorem strfnlFrom_lexeme {sep : UInt8} {text : List UInt8} (h : Lexeme sep text) (cur : Nat)
    (mem : List UInt8) :
    strfnlFrom sep false cur (text ++ mem) = strfnlFrom sep false (cur + text.length) mem := by
  induction text generalizing cur with
  | nil =>
      rfl
  | cons c text ih =>
      have hc := h c (List.mem_cons_self ..)
      have hrest := ih (fun d hd => h d (List.mem_cons_of_mem _ hd)) (cur + 1)
      have hlen : cur + (c :: text).length = cur + 1 + text.length := by
        rw [List.length_cons, Nat.add_right_comm, Nat.add_assoc]
      calc
        strfnlFrom sep false cur (c :: (text ++ mem))
            = strfnlFrom sep false (cur + 1) (text ++ mem) := by
              rw [strfnlFrom, if_neg hc.1, if_neg hc.2, if_neg Bool.false_ne_true]
        _ = strfnlFrom sep false (cur + 1 + text.length) mem := hrest
        _ = strfnlFrom sep false (cur + (c :: text).length) mem := by rw [hlen]

/-- Separators are skipped, and end the lexeme before them. -/
theorem strfnlFrom_separators {sep : UInt8} (hsep : sep ≠ 0) (ended : Bool) (k cur : Nat)
    (mem : List UInt8) :
    strfnlFrom sep ended cur (List.replicate k sep ++ mem) =
      strfnlFrom sep (ended || decide (k ≠ 0)) (cur + k) mem := by
  induction k generalizing cur ended with
  | zero =>
      simp
  | succ k ih =>
      -- Behind this separator the lexeme has ended.
      calc
        strfnlFrom sep ended cur (List.replicate (k + 1) sep ++ mem)
            = strfnlFrom sep true (cur + 1) (List.replicate k sep ++ mem) := by
              rw [List.replicate_succ, List.cons_append, strfnlFrom, if_neg hsep, if_pos rfl]
        _ = strfnlFrom sep true (cur + 1 + k) mem := by
              rw [ih, Bool.true_or]
        _ = strfnlFrom sep (ended || decide (k + 1 ≠ 0)) (cur + (k + 1)) mem := by
              simp [Nat.add_right_comm, Nat.add_assoc]

theorem strfnlFrom_nul (sep : UInt8) (ended : Bool) (cur : Nat) (mem : List UInt8) :
    strfnlFrom sep ended cur (0 :: mem) = some none := by
  rw [strfnlFrom, if_pos rfl]

theorem strfnlFrom_found {sep c : UInt8} (hc : c ≠ 0) (hsep : c ≠ sep) (cur : Nat)
    (mem : List UInt8) : strfnlFrom sep true cur (c :: mem) = some (some cur) := by
  rw [strfnlFrom, if_neg hc, if_neg hsep, if_pos rfl]

/-! ## `strncpy_f` -/

/-- `strncpy_f`: the `max` bytes of `dst`, filled up with NULs. -/
def strncpyF : List UInt8 → Nat → Option (List UInt8)
  | _, 0 => some []
  | [], _ + 1 => none
  | c :: src, max + 1 =>
      if c = 0 then some (List.replicate (max + 1) 0)
      else (strncpyF src max).map (c :: ·)

end Feudos
