import Mathlib.Data.Nat.Digits.Lemmas

/-!
# Positional numerals

Numbers written with the characters of a type, the most significant digit first.  `value` says
which characters are digits, and which.

- `read`                   : the number that a text reads as;
- `Numeral`                : the text is the canonical numeral of a number;
- `numeral_zero`           : the digit 0;
- `numeral_digits`         : the digits that repeated division gives, last one first;
- `Numeral.unique`         : a number has one canonical numeral;
- `read_places`            : a number of fixed width, written place by place from the top;
- `numeral_dropZeros`      : without the zeros at its start it is canonical.
-/

namespace Positional

variable {α : Type*} {value : α → Option Nat} {base : Nat}

/-- The number that a text reads as in a base. -/
def read (value : α → Option Nat) (base : Nat) (text : List α) : Nat :=
  text.foldl (fun n c => n * base + (value c).getD 0) 0

/-- A nonempty sequence of digits that reads as `n` and starts with 0 only when it is that
digit. -/
structure Numeral (value : α → Option Nat) (base n : Nat) (text : List α) : Prop where
  nonempty : text ≠ []
  digit : ∀ c ∈ text, ∃ d, d < base ∧ value c = some d
  noLeadingZero : ∀ c rest, text = c :: rest → value c = some 0 → rest = []
  reads : read value base text = n

/-- From its last digit on, a text is what Mathlib calls the digits of a number. -/
theorem read_eq_ofDigits (text : List α) :
    read value base text = Nat.ofDigits base (text.reverse.map (fun c => (value c).getD 0)) := by
  calc
    read value base text
        = text.reverse.foldr (fun c n => n * base + (value c).getD 0) 0 := by
          rw [List.foldr_reverse, read]
    _ = text.reverse.foldr (fun c n => (value c).getD 0 + base * n) 0 := by
          simp only [Nat.add_comm, Nat.mul_comm]
    _ = Nat.ofDigits base (text.reverse.map (fun c => (value c).getD 0)) := by
          rw [Nat.ofDigits_eq_foldr, List.foldr_map]
          simp only [Nat.cast_id]

theorem numeral_zero (hbase : 0 < base) {c : α} (hc : value c = some 0) :
    Numeral value base 0 [c] where
  nonempty := List.cons_ne_nil c []
  digit := by
    intro c' hc'
    obtain rfl : c' = c := List.mem_singleton.1 hc'
    exact ⟨0, hbase, hc⟩
  noLeadingZero := by
    intro c' rest hEq _
    exact (List.cons.inj hEq).2.symm
  reads := by
    simp [read, hc]

/-- Repeated division finds the canonical numeral, from its end. -/
theorem numeral_digits (hbase : 1 < base) {write : Nat → α}
    (hwrite : ∀ d, d < base → value (write d) = some d) {n : Nat} (hn : n ≠ 0) :
    Numeral value base n ((Nat.digits base n).map write).reverse where
  nonempty := by
    simpa [Nat.digits_ne_nil_iff_ne_zero] using hn
  digit := by
    intro c hc
    obtain ⟨d, hd, rfl⟩ := List.mem_map.1 (List.mem_reverse.1 hc)
    have hlt : d < base := Nat.digits_lt_base hbase hd
    exact ⟨d, hlt, hwrite d hlt⟩
  noLeadingZero := by
    intro c rest hEq hzero
    -- The first character of the numeral is the last digit of the division, which is not 0.
    have hne : Nat.digits base n ≠ [] := Nat.digits_ne_nil_iff_ne_zero.2 hn
    have hlast := Nat.getLast_digit_ne_zero base hn
    have hlt := Nat.digits_lt_base hbase (List.getLast_mem hne)
    have hc : c = write ((Nat.digits base n).getLast hne) := by
      have hhead : ((Nat.digits base n).map write).getLast? = some c := by
        rw [← List.head?_reverse, hEq]
        rfl
      rw [List.getLast?_map, List.getLast?_eq_some_getLast hne] at hhead
      exact (Option.some.inj hhead).symm
    rw [hc, hwrite _ hlt, Option.some.injEq] at hzero
    exact absurd hzero hlast
  reads := by
    have hvalues : (Nat.digits base n).map (fun d => (value (write d)).getD 0) =
        Nat.digits base n := by
      conv_rhs => rw [← List.map_id (Nat.digits base n)]
      refine List.map_congr_left (fun d hd => ?_)
      rw [hwrite d (Nat.digits_lt_base hbase hd)]
      rfl
    rw [read_eq_ofDigits, List.reverse_reverse, List.map_map]
    exact (congrArg (Nat.ofDigits base) hvalues).trans (Nat.ofDigits_digits base n)

/-- A canonical numeral is a zero, or its digits are those that repeated division gives. -/
theorem Numeral.zero_or_digits (hbase : 1 < base) {n : Nat} {text : List α}
    (h : Numeral value base n text) :
    (n = 0 ∧ ∃ c, text = [c] ∧ value c = some 0) ∨
      (n ≠ 0 ∧ text.reverse.map (fun c => (value c).getD 0) = Nat.digits base n) := by
  obtain ⟨c, rest, rfl⟩ := List.exists_cons_of_ne_nil h.nonempty
  obtain ⟨d, -, hd⟩ := h.digit c (List.mem_cons_self ..)
  by_cases hzero : d = 0
  · subst hzero
    obtain rfl := h.noLeadingZero c rest rfl hd
    left
    refine ⟨?_, c, rfl, hd⟩
    rw [← h.reads]
    simp [read, hd]
  · right
    have hlt : ∀ e ∈ (c :: rest).reverse.map (fun c => (value c).getD 0), e < base := by
      intro e he
      obtain ⟨c', hc', rfl⟩ := List.mem_map.1 he
      obtain ⟨d', hlt, hd'⟩ := h.digit c' (List.mem_reverse.1 hc')
      simpa [hd'] using hlt
    -- The last digit of the division is the first character, which is not 0.
    have hlast : ∀ hne : (c :: rest).reverse.map (fun c => (value c).getD 0) ≠ [],
        ((c :: rest).reverse.map (fun c => (value c).getD 0)).getLast hne ≠ 0 := by
      intro hne
      simp [hd, hzero]
    have hdigits := Nat.digits_ofDigits base hbase _ hlt hlast
    rw [← read_eq_ofDigits, h.reads] at hdigits
    refine ⟨?_, hdigits.symm⟩
    rintro rfl
    simp at hdigits

/-- A number has one canonical numeral, when no two characters are the same digit. -/
theorem Numeral.unique (hbase : 1 < base)
    (hvalue : ∀ c c' d, value c = some d → value c' = some d → c = c') {n : Nat}
    {text text' : List α} (h : Numeral value base n text) (h' : Numeral value base n text') :
    text = text' := by
  rcases h.zero_or_digits hbase with ⟨hzero, c, rfl, hc⟩ | ⟨hpos, hdigits⟩
  · rcases h'.zero_or_digits hbase with ⟨-, c', rfl, hc'⟩ | ⟨hpos', -⟩
    · rw [hvalue c c' 0 hc hc']
    · exact absurd hzero hpos'
  · rcases h'.zero_or_digits hbase with ⟨hzero', -⟩ | ⟨-, hdigits'⟩
    · exact absurd hzero' hpos
    · have hmap := hdigits.trans hdigits'.symm
      simp only [List.map_reverse, List.reverse_inj] at hmap
      -- The digits are the same, and so are the characters that stand for them.
      refine List.ext_getElem (by simpa using congrArg List.length hmap) (fun i hi hi' => ?_)
      obtain ⟨d, -, hd⟩ := h.digit text[i] (List.getElem_mem hi)
      obtain ⟨d', -, hd'⟩ := h'.digit text'[i] (List.getElem_mem hi')
      have hEq : d = d' := by
        simpa [hi, hi', hd, hd'] using congrArg (fun l => l[i]?) hmap
      exact hvalue _ _ d hd (hEq ▸ hd')

/-! ## Fixed width -/

theorem read_concat (text : List α) (c : α) :
    read value base (text ++ [c]) = read value base text * base + (value c).getD 0 := by
  rw [read, List.foldl_append]
  rfl

/-- Of a text that has the digit of each of `k` places, the first `j` characters read as what is
left of the number without its `k - j` lowest places. -/
theorem read_places {k n : Nat} {place : Nat → α}
    (hplace : ∀ i, i < k → value (place i) = some (n / base ^ (k - 1 - i) % base))
    (hn : n < base ^ k) {j : Nat} (hj : j ≤ k) :
    read value base ((List.range j).map place) = n / base ^ (k - j) := by
  induction j with
  | zero =>
      rw [Nat.sub_zero, Nat.div_eq_of_lt hn]
      rfl
  | succ j ih =>
      have hsub : k - j = k - 1 - j + 1 := by omega
      have hindex : k - (j + 1) = k - 1 - j := by omega
      calc
        read value base ((List.range (j + 1)).map place)
            = read value base ((List.range j).map place) * base + (value (place j)).getD 0 := by
              rw [List.range_succ, List.map_append, List.map_singleton, read_concat]
        _ = n / base ^ (k - 1 - j) / base * base + n / base ^ (k - 1 - j) % base := by
              rw [ih (by omega), hplace j hj, hsub, Nat.pow_succ, Nat.div_div_eq_div_mul]
              rfl
        _ = n / base ^ (k - (j + 1)) := by
              rw [hindex, Nat.mul_comm, Nat.div_add_mod]

/-- Zeros at the start do not count. -/
theorem read_dropZeros (text : List α) :
    read value base (text.dropWhile (fun c => value c = some 0)) = read value base text := by
  induction text with
  | nil =>
      rfl
  | cons c text ih =>
      by_cases hc : value c = some 0
      · have hread : read value base (c :: text) = read value base text := by
          simp [read, hc]
        rw [List.dropWhile_cons_of_pos (by simpa using hc), ih, hread]
      · rw [List.dropWhile_cons_of_neg (by simpa using hc)]

/-- Without the zeros at its start, a text that reads as a number other than 0 is canonical. -/
theorem numeral_dropZeros {n : Nat} {text : List α}
    (hdigit : ∀ c ∈ text, ∃ d, d < base ∧ value c = some d) (hread : read value base text = n)
    (hn : n ≠ 0) : Numeral value base n (text.dropWhile (fun c => value c = some 0)) where
  nonempty := by
    intro hnil
    have hzero := @read_dropZeros α value base text
    rw [hnil, hread] at hzero
    exact hn hzero.symm
  digit := by
    intro c hc
    exact hdigit c ((List.dropWhile_sublist _).subset hc)
  noLeadingZero := by
    intro c rest hEq hzero
    -- The first character left is none of the zeros.
    have hfirst := List.head?_dropWhile_not (fun c => decide (value c = some 0)) text
    rw [hEq] at hfirst
    exact absurd hzero (of_decide_eq_false hfirst)
  reads := by
    rw [read_dropZeros, hread]

end Positional
