import Feudos.Library.Positional
import Feudos.Vga.Printf

/-!
# Numbers

`kprint_uint` and `kprint_int` print canonical numerals.

- `kprintUintIn`            : the two loops of `kprint_uint` with their buffer, access by access;
- `kprintUintIn_eq`         : they print what `kprintUint` says;
- `kprintUint_numeral`      : that is the canonical numeral of the number;
- `kprintInt_numeral`       : the same for signed numbers;
- `kvprintf_numerals`       : all the numeric specifiers, and the bound of the buffer.
-/

namespace Feudos
namespace Vga

open Positional

/-! ## The digit buffer -/

/-- The first loop of `kprint_uint`, from `buf[i]` on. -/
def digitLoop (base n i : Nat) (buf : Buffer) : Nat × Buffer :=
  if _h : n ≠ 0 ∧ 2 ≤ base then
    digitLoop base (n / base) (i + 1) (buf.write i (dtoa (UInt8.ofNat (n % base))))
  else
    (i, buf)
termination_by n
decreasing_by
  exact Nat.div_lt_self (Nat.pos_of_ne_zero _h.1) _h.2

/-- The second loop of `kprint_uint`: `buf[i - 1]`, …, `buf[0]` are printed. -/
def outputLoop : Nat → Buffer → List UInt8 × Buffer
  | 0, buf => ([], buf)
  | j + 1, buf =>
      let r := outputLoop j (buf.read j)
      (buf.get j :: r.1, r.2)

/-- `kprint_uint` with its buffer: the characters printed, and the buffer afterwards. -/
def kprintUintIn (buf : Buffer) (n : UInt64) (base : UInt8) : List UInt8 × Buffer :=
  if n = 0 then ([48], buf)
  else
    let r := digitLoop base.toNat n.toNat 0 buf
    outputLoop r.1 r.2

/-- What the first loop leaves: the digits from `buf[i]` on, written one after the other. -/
structure DigitsStored (base n i : Nat) (buf : Buffer) (r : Nat × Buffer) : Prop where
  count : r.1 = i + (digitBuffer base n).length
  digits : r.2.slice i (digitBuffer base n).length = digitBuffer base n
  before : ∀ j, j < i → r.2.get j = buf.get j
  reads : r.2.reads = buf.reads
  writes : ∀ j ∈ r.2.writes, j < r.1 ∨ j ∈ buf.writes

theorem digitBuffer_eq_digits {base : Nat} (hbase : 1 < base) (n : Nat) :
    digitBuffer base n = (Nat.digits base n).map (fun d => dtoa (UInt8.ofNat d)) := by
  induction n using Nat.strongRecOn with
  | ind n ih =>
      by_cases hn : n = 0
      · subst hn
        rw [digitBuffer]
        simp
      · rw [digitBuffer, dif_pos ⟨hn, hbase⟩, Nat.digits_def' hbase (Nat.pos_of_ne_zero hn),
          ih (n / base) (Nat.div_lt_self (Nat.pos_of_ne_zero hn) hbase), List.map_cons]

theorem digitLoop_stored (base n i : Nat) (buf : Buffer) :
    DigitsStored base n i buf (digitLoop base n i buf) := by
  fun_induction digitLoop base n i buf with
  | case1 n i buf h ih =>
      have hdigits : digitBuffer base n =
          dtoa (UInt8.ofNat (n % base)) :: digitBuffer base (n / base) := by
        rw [digitBuffer, dif_pos h]
      refine ⟨?_, ?_, ?_, ih.reads, ?_⟩
      · rw [ih.count, hdigits, List.length_cons]
        omega
      · -- Later iterations leave `buf[i]` alone.
        rw [hdigits, List.length_cons, Buffer.slice_cons, ih.digits,
          ih.before i (Nat.lt_succ_self i), Buffer.write_get, if_pos rfl]
      · intro j hj
        rw [ih.before j (by omega), Buffer.write_get, if_neg (by omega)]
      · intro j hj
        have hcount := ih.count
        rcases ih.writes j hj with hlt | hmem
        · exact .inl hlt
        · rcases List.mem_cons.1 hmem with rfl | hmem
          · exact .inl (by omega)
          · exact .inr hmem
  | case2 n i buf h =>
      have hempty : digitBuffer base n = [] := by rw [digitBuffer, dif_neg h]
      exact ⟨by simp [hempty], by simp [hempty, Buffer.slice_zero], fun _ _ => rfl, rfl,
        fun _ hj => .inr hj⟩

theorem outputLoop_spec (j : Nat) (buf : Buffer) :
    (outputLoop j buf).1 = (buf.slice 0 j).reverse ∧
      (outputLoop j buf).2.writes = buf.writes ∧
      ∀ k ∈ (outputLoop j buf).2.reads, k < j ∨ k ∈ buf.reads := by
  induction j generalizing buf with
  | zero =>
      exact ⟨by simp [outputLoop, Buffer.slice_zero], rfl, fun _ hk => .inr hk⟩
  | succ j ih =>
      obtain ⟨hout, hwrites, hreads⟩ := ih (buf.read j)
      refine ⟨?_, hwrites, ?_⟩
      · have hslice : (buf.read j).slice 0 j = buf.slice 0 j := rfl
        -- The byte at `j` is printed first, and then those below it.
        rw [Buffer.slice_succ, List.reverse_append, Nat.zero_add]
        simp [outputLoop, hout, hslice]
      · intro k hk
        rcases hreads k hk with hlt | hmem
        · exact .inl (by omega)
        · rcases List.mem_cons.1 hmem with rfl | hmem
          · exact .inl (Nat.lt_succ_self k)
          · exact .inr hmem

/-- The loops print the digits, the last one found first. -/
theorem kprintUintIn_eq (buf : Buffer) (n : UInt64) (base : UInt8) :
    (kprintUintIn buf n base).1 = kprintUint n base := by
  by_cases hn : n = 0
  · simp [kprintUintIn, kprintUint, hn]
  · have hloop := digitLoop_stored base.toNat n.toNat 0 buf
    have hcount := hloop.count
    rw [Nat.zero_add] at hcount
    simp only [kprintUintIn, kprintUint, if_neg hn]
    rw [(outputLoop_spec _ _).1, hcount, hloop.digits]

/-- Every access to the buffer is below the number of digits. -/
theorem kprintUintIn_accesses (get : Nat → UInt8) (n : UInt64) (base : UInt8) :
    ∀ i ∈ (kprintUintIn (Buffer.fresh get) n base).2.reads ++
        (kprintUintIn (Buffer.fresh get) n base).2.writes,
      i < (digitBuffer base.toNat n.toNat).length := by
  by_cases hn : n = 0
  · simp [kprintUintIn, hn, Buffer.fresh]
  · have hloop := digitLoop_stored base.toNat n.toNat 0 (Buffer.fresh get)
    obtain ⟨-, hwrites, hreads⟩ := outputLoop_spec
      (digitLoop base.toNat n.toNat 0 (Buffer.fresh get)).1
      (digitLoop base.toNat n.toNat 0 (Buffer.fresh get)).2
    have hcount := hloop.count
    rw [Nat.zero_add] at hcount
    simp only [kprintUintIn, if_neg hn]
    intro i hi
    rcases List.mem_append.1 hi with hread | hwrite
    · rcases hreads i hread with hlt | hmem
      · omega
      · rw [hloop.reads] at hmem
        exact absurd hmem (List.not_mem_nil)
    · rw [hwrites] at hwrite
      rcases hloop.writes i hwrite with hlt | hmem
      · omega
      · exact absurd hmem (List.not_mem_nil)

/-! ## Canonical numerals -/

/-- The digit that a character stands for. -/
def digitValue (c : UInt8) : Option Nat :=
  if 48 ≤ c ∧ c ≤ 57 then some (c.toNat - 48)
  else if 65 ≤ c ∧ c ≤ 70 then some (c.toNat - 55)
  else none

/-- The canonical numeral of an integer: a minus sign before that of the absolute value exactly
when the integer is negative. -/
def SignedNumeral (base : Nat) (v : Int) (text : List UInt8) : Prop :=
  if v < 0 then ∃ digits, text = 45 :: digits ∧ Numeral digitValue base v.natAbs digits
  else Numeral digitValue base v.natAbs text

theorem digitValue_dtoa : ∀ d, d < 16 → digitValue (dtoa (UInt8.ofNat d)) = some d := by
  decide

/-- No two characters are the same digit. -/
theorem digitValue_inj (c c' : UInt8) (d : Nat) (h : digitValue c = some d)
    (h' : digitValue c' = some d) : c = c' := by
  simp only [digitValue, UInt8.le_iff_toNat_le, UInt8.toNat_ofNat] at h h'
  apply UInt8.toNat_inj.1
  grind

theorem kprintUint_numeral (n : UInt64) {base : UInt8} (hbase : 1 < base.toNat)
    (hupper : base.toNat ≤ 16) :
    Numeral digitValue base.toNat n.toNat (kprintUint n base) := by
  by_cases hn : n = 0
  · subst hn
    exact numeral_zero (Nat.lt_of_succ_lt hbase) (by decide)
  · have hpos : n.toNat ≠ 0 := fun h => hn (UInt64.toNat_inj.1 h)
    rw [kprintUint, if_neg hn, digitBuffer_eq_digits hbase]
    exact numeral_digits hbase
      (fun d hd => digitValue_dtoa d (Nat.lt_of_lt_of_le hd hupper)) hpos

/-- It is the only canonical numeral. -/
theorem eq_kprintUint_iff (n : UInt64) {base : UInt8} (hbase : 1 < base.toNat)
    (hupper : base.toNat ≤ 16) (text : List UInt8) :
    text = kprintUint n base ↔ Numeral digitValue base.toNat n.toNat text := by
  constructor
  · rintro rfl
    exact kprintUint_numeral n hbase hupper
  · intro h
    exact h.unique hbase digitValue_inj (kprintUint_numeral n hbase hupper)

theorem toInt_eq (v : Int64) :
    v.toInt = if 2 * v.toUInt64.toNat < 2 ^ 64 then (v.toUInt64.toNat : Int)
      else (v.toUInt64.toNat : Int) - 2 ^ 64 :=
  BitVec.toInt_eq_toNat_cond v.toBitVec

/-- The unsigned negation of a negative number is its absolute value, of the least one too. -/
theorem toNat_neg {v : Int64} (hv : v.toInt < 0) : (0 - v.toUInt64).toNat = v.toInt.natAbs := by
  have hrange := v.toUInt64.toNat_lt
  have hvalue := toInt_eq v
  -- `-v` as an unsigned number is `2 ^ 64` minus the bits of `v`.
  rw [UInt64.toNat_sub, UInt64.toNat_zero]
  split at hvalue <;> omega

theorem toNat_of_nonneg {v : Int64} (hv : ¬ v.toInt < 0) : v.toUInt64.toNat = v.toInt.natAbs := by
  have hrange := v.toUInt64.toNat_lt
  have hvalue := toInt_eq v
  split at hvalue <;> omega

theorem kprintInt_numeral (v : Int64) {base : UInt8} (hbase : 1 < base.toNat)
    (hupper : base.toNat ≤ 16) :
    SignedNumeral base.toNat v.toInt (kprintInt v base) := by
  have hsign : v < 0 ↔ v.toInt < 0 := Int64.lt_iff_toInt_lt
  by_cases hv : v.toInt < 0
  · rw [SignedNumeral, if_pos hv, kprintInt, if_pos (hsign.2 hv)]
    refine ⟨_, rfl, ?_⟩
    rw [← toNat_neg hv]
    exact kprintUint_numeral _ hbase hupper
  · rw [SignedNumeral, if_neg hv, kprintInt, if_neg (fun h => hv (hsign.1 h))]
    rw [← toNat_of_nonneg hv]
    exact kprintUint_numeral _ hbase hupper

/-- An unsigned number has no sign. -/
theorem kprintUint_signed (n : UInt64) {base : UInt8} (hbase : 1 < base.toNat)
    (hupper : base.toNat ≤ 16) : SignedNumeral base.toNat (n.toNat : Int) (kprintUint n base) := by
  have hpos : ¬ (n.toNat : Int) < 0 := by omega
  rw [SignedNumeral, if_neg hpos, Int.natAbs_natCast]
  exact kprintUint_numeral n hbase hupper

/-- A number of 64 bits has at most 20 digits. -/
theorem digitBuffer_length_le {base : Nat} (hbase : 10 ≤ base) (n : UInt64) :
    (digitBuffer base n.toNat).length ≤ 20 := by
  have hrange := n.toNat_lt
  have hpow : 10 ^ 20 ≤ base ^ 20 := Nat.pow_le_pow_left hbase 20
  rw [digitBuffer_eq_digits (by omega), List.length_map, Nat.digits_length_le_iff (by omega)]
  omega

/-! ## The numeric specifiers -/

/-- The conversion `spec` prints the canonical numeral of `value v` for every argument `v`, anywhere
in a format. -/
def PrintsNumeral {ι : Type} (spec : List UInt8) (arg : ι → VaArg) (base : Nat) (value : ι → Int) :
    Prop :=
  ∀ v msg args color, ∃ text, SignedNumeral base (value v) text ∧
    kvprintf (spec ++ msg) (arg v :: args) color =
      (kvprintf msg args color).prepend (inColour color text)

/-- Every numeric conversion prints the canonical numeral of its argument, and the 20 bytes of the
digit buffer are enough. -/
theorem kvprintf_numerals :
    PrintsNumeral (bytes "%d") .int 10 Int32.toInt ∧
    PrintsNumeral (bytes "%u") .uint 10 (fun v => (v.toNat : Int)) ∧
    PrintsNumeral (bytes "%ld") .long 10 Int64.toInt ∧
    PrintsNumeral (bytes "%lu") .ulong 10 (fun v => (v.toNat : Int)) ∧
    PrintsNumeral (bytes "%X") .ulong 16 (fun v => (v.toNat : Int)) ∧
    ∀ (get : Nat → UInt8) (n : UInt64) (base : UInt8), base = 10 ∨ base = 16 →
      (kprintUintIn (Buffer.fresh get) n base).1 = kprintUint n base ∧
      ∀ i ∈ (kprintUintIn (Buffer.fresh get) n base).2.reads ++
        (kprintUintIn (Buffer.fresh get) n base).2.writes, i < 20 := by
  refine ⟨?int, ?uint, ?long, ?ulong, ?hex, ?buffer⟩
  case int =>
    intro v msg args color
    refine ⟨kprintInt v.toInt64 10, ?_, ?_⟩
    · rw [← Int32.toInt_toInt64]
      exact kprintInt_numeral v.toInt64 (by decide) (by decide)
    · exact kvprintf_specifier (by decide) (by decide) msg _ color
  case uint =>
    intro v msg args color
    refine ⟨kprintUint v.toUInt64 10, ?_, ?_⟩
    · change SignedNumeral 10 (v.toNat : Int) (kprintUint v.toUInt64 10)
      rw [← UInt32.toNat_toUInt64]
      exact kprintUint_signed v.toUInt64 (by decide) (by decide)
    · exact kvprintf_specifier (by decide) (by decide) msg _ color
  case long =>
    intro v msg args color
    refine ⟨kprintInt v 10, kprintInt_numeral v (by decide) (by decide), ?_⟩
    exact kvprintf_long 100 msg _ color
  case ulong =>
    intro v msg args color
    refine ⟨kprintUint v 10, kprintUint_signed v (by decide) (by decide), ?_⟩
    exact kvprintf_long 117 msg _ color
  case hex =>
    intro v msg args color
    refine ⟨kprintUint v 16, kprintUint_signed v (by decide) (by decide), ?_⟩
    exact kvprintf_specifier (by decide) (by decide) msg _ color
  case buffer =>
    intro get n base hbase
    refine ⟨kprintUintIn_eq (Buffer.fresh get) n base, fun i hi => ?_⟩
    -- The bound is tight: the greatest number has 20 decimal digits.
    have hdigits : (digitBuffer base.toNat n.toNat).length ≤ 20 := by
      apply digitBuffer_length_le
      rcases hbase with rfl | rfl <;> decide
    exact Nat.lt_of_lt_of_le (kprintUintIn_accesses get n base i hi) hdigits

end Vga
end Feudos
