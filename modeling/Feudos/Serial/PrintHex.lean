import Feudos.Library.Loop
import Feudos.Util.Str
import Feudos.Vga.Numerals

/-!
# Hexadecimal output on the serial port (`serial.c`)

`serial_print_hex` shifts the number from the top and always writes sixteen digits;
`kprint_uint` divides it from the bottom and writes as many as it has.

- `serialPrint`              : the bytes sent for a string;
- `hexBuffer`                : the digit buffer of `serial_print_hex`;
- `hexBuffer_digits`         : it has the digit of each place, the highest one first;
- `serialPrintHex_eq`        : these digits are sent behind the prefix;
- `kprintUint_of_serial`     : the two printers agree, but for the zeros at the start.
-/

namespace Feudos

open Vga Positional

/-! ## The functions -/

/-- `serial_print`: the bytes sent.  The wait for the transmitter before each of them sends
nothing. -/
def serialPrint : List UInt8 → Option (List UInt8)
  | [] => none
  | c :: s => if c ≠ 0 then (serialPrint s).map (c :: ·) else some []

/-- The nibble of `val` that goes to `buf[i]`. -/
def nibble (val : UInt64) (i : Nat) : UInt8 :=
  ((val >>> UInt64.ofNat ((15 - i) * 4)) &&& 0xF).toUInt8

/-- The character of a nibble. -/
def nibbleChar (nib : UInt8) : UInt8 :=
  if nib < 10 then 48 + nib else 65 + nib - 10

/-- `buf` when `serial_print_hex` sends it. -/
def hexBuffer (buf : Buffer) (val : UInt64) : Buffer :=
  (CountedLoop.range 0 16 (fun i buf => buf.write i (nibbleChar (nibble val i))) buf).write 16 0

/-- `serial_print_hex`, with the 17 bytes of `buf` on the stack: the bytes sent. -/
def serialPrintHex (buf : Buffer) (val : UInt64) : Option (List UInt8) := do
  let head ← serialPrint (cstr "0x")
  let digits ← serialPrint ((hexBuffer buf val).slice 0 17)
  some (head ++ digits)

theorem serialPrint_nul {text : List UInt8} (h : NulFree text) (mem : List UInt8) :
    serialPrint (text ++ 0 :: mem) = some text := by
  induction text with
  | nil =>
      rfl
  | cons c text ih =>
      have hc : c ≠ 0 := fun hEq => h (by simp [hEq])
      have hrest := ih (fun hmem => h (List.mem_cons_of_mem _ hmem))
      rw [List.cons_append, serialPrint, if_pos hc, hrest, Option.map_some]

/-! ## The digits -/

theorem toNat_nibble (val : UInt64) {i : Nat} (hi : i < 16) :
    (nibble val i).toNat = val.toNat / 16 ^ (16 - 1 - i) % 16 := by
  have hshift : (UInt64.ofNat ((15 - i) * 4)).toNat % 64 = (16 - 1 - i) * 4 := by
    rw [UInt64.toNat_ofNat']
    omega
  have hpow : 2 ^ ((16 - 1 - i) * 4) = 16 ^ (16 - 1 - i) := by
    rw [Nat.mul_comm, Nat.pow_mul]
  have hmask : ∀ n : Nat, n &&& 15 = n % 16 := fun n => Nat.and_two_pow_sub_one_eq_mod n 4
  have hsmall : val.toNat / 16 ^ (16 - 1 - i) % 16 < 16 := Nat.mod_lt _ (by decide)
  have hlit : (0xF : UInt64).toNat = 15 := rfl
  rw [nibble, UInt64.toNat_toUInt8, UInt64.toNat_and, UInt64.toNat_shiftRight, hshift, hlit,
    Nat.shiftRight_eq_div_pow, hpow, hmask]
  omega

theorem digitValue_nibbleChar : ∀ d, d < 16 →
    digitValue (nibbleChar (UInt8.ofNat d)) = some d := by
  decide

/-- The character at `i` is the digit of that place. -/
theorem digitValue_place (val : UInt64) {i : Nat} (hi : i < 16) :
    digitValue (nibbleChar (nibble val i)) =
      some (val.toNat / 16 ^ (16 - 1 - i) % 16) := by
  rw [← toNat_nibble val hi]
  have hsmall : (nibble val i).toNat < 16 := by
    rw [toNat_nibble val hi]
    exact Nat.mod_lt _ (by decide)
  have hvalue := digitValue_nibbleChar _ hsmall
  rw [UInt8.ofNat_toNat] at hvalue
  exact hvalue

/-- The sixteen digits of a number. -/
def hexDigits (val : UInt64) : List UInt8 :=
  (List.range 16).map (fun i => nibbleChar (nibble val i))

theorem hexDigits_digit {val : UInt64} {c : UInt8} (hc : c ∈ hexDigits val) :
    ∃ d, d < 16 ∧ digitValue c = some d := by
  obtain ⟨i, hi, rfl⟩ := List.mem_map.1 hc
  exact ⟨_, Nat.mod_lt _ (by decide), digitValue_place val (List.mem_range.1 hi)⟩

theorem hexDigits_nulFree (val : UInt64) : NulFree (hexDigits val) := by
  intro hmem
  obtain ⟨d, -, hd⟩ := hexDigits_digit hmem
  cases hd

theorem read_hexDigits (val : UInt64) : read digitValue 16 (hexDigits val) = val.toNat := by
  have hrange : val.toNat < 16 ^ 16 := val.toNat_lt
  rw [hexDigits, read_places (fun i hi => digitValue_place val hi) hrange (Nat.le_refl 16),
    Nat.sub_self, Nat.pow_zero, Nat.div_one]

/-! ## The buffer -/

theorem hexBuffer_digits (buf : Buffer) (val : UInt64) :
    (hexBuffer buf val).slice 0 17 = hexDigits val ++ [0] := by
  -- Iteration `i` stores the digit at `i` and leaves those before it alone.
  have hloop := CountedLoop.range_induction 0 16
    (fun i buf => buf.write i (nibbleChar (nibble val i))) buf
    (fun i buf => ∀ j, j < i → buf.get j = nibbleChar (nibble val j)) (Nat.zero_le _)
    (fun j hj => absurd hj (Nat.not_lt_zero j)) (by
      intro i buf _ _ hbefore j hj
      rw [Buffer.write_get]
      by_cases hji : j = i
      · rw [if_pos hji, hji]
      · rw [if_neg hji, hbefore j (by omega)])
  have hdigits : (hexBuffer buf val).slice 0 16 = hexDigits val := by
    refine List.map_congr_left (fun j hj => ?_)
    have hlt := List.mem_range.1 hj
    rw [Nat.zero_add, hexBuffer, Buffer.write_get, if_neg (by omega), hloop j hlt]
  rw [Buffer.slice_succ, hdigits, hexBuffer, Buffer.write_get, if_pos rfl]

/-- The prefix and the sixteen digits are sent. -/
theorem serialPrintHex_eq (buf : Buffer) (val : UInt64) :
    serialPrintHex buf val = some (bytes "0x" ++ hexDigits val) := by
  have hprefix : serialPrint (cstr "0x") = some (bytes "0x") :=
    @serialPrint_nul (bytes "0x") (by decide) []
  have hdigits := serialPrint_nul (hexDigits_nulFree val) []
  simp only [serialPrintHex, hprefix, hexBuffer_digits, hdigits, Option.bind_eq_bind,
    Option.bind_some]

/-! ## The two printers -/

/-- A character is the digit 0 only if it is `'0'`. -/
theorem digitValue_zero_iff (c : UInt8) : digitValue c = some 0 ↔ c = 48 := by
  constructor
  · intro hc
    exact digitValue_inj c 48 0 hc (by decide)
  · rintro rfl
    decide

/-- `kprint_uint` in base 16 prints what `serial_print_hex` sends behind `0x`, without the zeros at
the start; of the number 0 it leaves one. -/
theorem kprintUint_of_serial (buf buf' : Buffer) (val : UInt64) :
    ∃ digits, serialPrintHex buf val = some (bytes "0x" ++ digits) ∧
      (kprintUintIn buf' val 16).1 =
        if val = 0 then [48] else digits.dropWhile (fun c => c = 48) := by
  refine ⟨hexDigits val, serialPrintHex_eq buf val, ?_⟩
  rw [kprintUintIn_eq]
  by_cases hzero : val = 0
  · rw [if_pos hzero, kprintUint, if_pos hzero]
  · have hpos : val.toNat ≠ 0 := fun h => hzero (UInt64.toNat_inj.1 h)
    -- Both are the canonical numeral of the number.
    have hnumeral := numeral_dropZeros (fun c hc => hexDigits_digit hc) (read_hexDigits val) hpos
    simp only [digitValue_zero_iff] at hnumeral
    rw [if_neg hzero]
    exact ((@eq_kprintUint_iff val 16 (by decide) (by decide) _).2 hnumeral).symm

example : serialPrintHex (Buffer.fresh (fun _ => 0)) 0xBEEF =
    some (bytes "0x000000000000BEEF") := by decide

end Feudos
