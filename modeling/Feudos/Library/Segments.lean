import Mathlib.Data.List.Basic

/-!
# Segments of a list

A separator cuts a list into its maximal segments without that separator.

- `Segment`       : first and last index of a maximal segment;
- `Split`         : a list as its first segment, which may be empty, separators, and the rest;
- `exists_split`  : every list splits;
- `segment_split` : the segments of a split list are its first one and those of the rest.

Nothing here knows what the elements are.
-/

namespace Segments

variable {α : Type*} {sep : α} {text word rest : List α} {k first last : Nat}

/-- The elements from `first` to `last` are a maximal segment without the separator. -/
structure Segment (sep : α) (text : List α) (first last : Nat) : Prop where
  le : first ≤ last
  lt : last < text.length
  free : ∀ i, first ≤ i → i ≤ last → (text)[i]? ≠ some sep
  left : first = 0 ∨ (text)[first - 1]? = some sep
  right : last + 1 = text.length ∨ (text)[last + 1]? = some sep

/-- A segment, which may be empty, `k` separators, and the rest. -/
structure Split (sep : α) (word : List α) (k : Nat) (rest : List α) : Prop where
  word_free : sep ∉ word
  rest_head : rest.head? ≠ some sep
  rest_nil : k = 0 → rest = []

theorem exists_split [DecidableEq α] (sep : α) (text : List α) :
    ∃ word k rest, text = word ++ (List.replicate k sep ++ rest) ∧ Split sep word k rest := by
  induction text with
  | nil =>
      exact ⟨[], 0, [], rfl, ⟨List.not_mem_nil, by simp, fun _ => rfl⟩⟩
  | cons c text ih =>
      obtain ⟨word, k, rest, htext, h⟩ := ih
      by_cases hc : c = sep
      · subst hc
        cases word with
        | nil =>
            -- One separator more.
            refine ⟨[], k + 1, rest, ?_, ⟨List.not_mem_nil, h.rest_head, fun h0 => ?_⟩⟩
            · rw [htext, List.replicate_succ]
              rfl
            · cases h0
        | cons d word =>
            -- The separator ends an empty segment, and a word follows.
            have hd : d ≠ c := fun hEq => h.word_free (hEq ▸ List.mem_cons_self)
            refine ⟨[], 1, text, rfl, ⟨List.not_mem_nil, ?_, fun h0 => absurd h0 Nat.one_ne_zero⟩⟩
            rw [htext]
            simpa using hd
      · refine ⟨c :: word, k, rest, by rw [htext, List.cons_append], ?_, h.rest_head, h.rest_nil⟩
        intro hmem
        rcases List.mem_cons.1 hmem with hEq | hmem
        · exact hc hEq.symm
        · exact h.word_free hmem

/-- A list that does not begin with the separator has a first segment. -/
theorem Split.word_ne_nil (h : Split sep word k rest)
    (hne : word ++ (List.replicate k sep ++ rest) ≠ [])
    (hhead : (word ++ (List.replicate k sep ++ rest)).head? ≠ some sep) : word ≠ [] := by
  rintro rfl
  cases k with
  | zero =>
      rw [h.rest_nil rfl] at hne
      exact hne rfl
  | succ k =>
      exact hhead rfl

/-! ## The elements of a split list -/

theorem getElem?_word {i : Nat} (hi : i < word.length) :
    (word ++ (List.replicate k sep ++ rest))[i]? = (word)[i]? :=
  List.getElem?_append_left hi

theorem getElem?_separator {i : Nat} (hlo : word.length ≤ i) (hhi : i < word.length + k) :
    (word ++ (List.replicate k sep ++ rest))[i]? = some sep := by
  have hk : i - word.length < k := by omega
  rw [List.getElem?_append_right hlo,
    List.getElem?_append_left (by rw [List.length_replicate]; exact hk),
    List.getElem?_replicate, if_pos hk]

theorem getElem?_rest (i : Nat) :
    (word ++ (List.replicate k sep ++ rest))[word.length + k + i]? = (rest)[i]? := by
  have hindex : word.length + k + i - word.length - k = i := by omega
  rw [List.getElem?_append_right (by omega),
    List.getElem?_append_right (by rw [List.length_replicate]; omega),
    List.length_replicate, hindex]

theorem length_split :
    (word ++ (List.replicate k sep ++ rest)).length = word.length + k + rest.length := by
  simp [Nat.add_assoc]

theorem Split.word_ne (h : Split sep word k rest) {i : Nat} : (word)[i]? ≠ some sep :=
  fun hEq => h.word_free (List.mem_of_getElem? hEq)

/-- Behind the word the list ends, or a separator follows. -/
theorem Split.behind (h : Split sep word k rest) :
    word.length = (word ++ (List.replicate k sep ++ rest)).length ∨
      (word ++ (List.replicate k sep ++ rest))[word.length]? = some sep := by
  by_cases hk : k = 0
  · rw [length_split, hk, h.rest_nil hk]
    exact Or.inl rfl
  · exact Or.inr (getElem?_separator (Nat.le_refl _) (by omega))

/-! ## The segments of a split list -/

theorem Split.first_segment (h : Split sep word k rest) (hword : word ≠ []) :
    Segment sep (word ++ (List.replicate k sep ++ rest)) 0 (word.length - 1) := by
  have hlen := List.length_pos_of_ne_nil hword
  have hsucc : word.length - 1 + 1 = word.length := by omega
  refine ⟨Nat.zero_le _, by rw [length_split]; omega, ?_, Or.inl rfl, ?_⟩
  · intro i _ hi
    rw [getElem?_word (by omega)]
    exact h.word_ne
  · rw [hsucc]
    exact h.behind

theorem Split.rest_segment (h : Split sep word k rest) (hrest : Segment sep rest first last) :
    Segment sep (word ++ (List.replicate k sep ++ rest)) (word.length + k + first)
      (word.length + k + last) := by
  have hle := hrest.le
  have hlt := hrest.lt
  refine ⟨by omega, by rw [length_split]; omega, ?_, ?_, ?_⟩
  · intro i hlo hhi
    obtain ⟨j, rfl⟩ : ∃ j, i = word.length + k + j := ⟨i - (word.length + k), by omega⟩
    rw [getElem?_rest]
    exact hrest.free j (by omega) (by omega)
  · by_cases hzero : first = 0
    · -- The rest is not empty, so there is a separator before it.
      have hk : k ≠ 0 := by
        intro hk
        rw [h.rest_nil hk] at hlt
        exact Nat.not_lt_zero _ hlt
      exact Or.inr (getElem?_separator (by omega) (by omega))
    · have hindex : word.length + k + first - 1 = word.length + k + (first - 1) := by omega
      rw [hindex, getElem?_rest]
      exact Or.inr (hrest.left.resolve_left hzero)
  · rw [length_split, Nat.add_assoc, getElem?_rest]
    rcases hrest.right with hend | hsep
    · exact Or.inl (by omega)
    · exact Or.inr hsep

/-- A segment that starts in the word is the word. -/
theorem Split.segment_in_word (h : Split sep word k rest)
    (hseg : Segment sep (word ++ (List.replicate k sep ++ rest)) first last)
    (hfirst : first < word.length) : first = 0 ∧ last + 1 = word.length := by
  have hlt := hseg.lt
  constructor
  · refine hseg.left.resolve_right (fun hsep => ?_)
    rw [getElem?_word (by omega)] at hsep
    exact h.word_ne hsep
  · rcases Nat.lt_trichotomy (last + 1) word.length with hshort | hEq | hlong
    · -- It could be extended to the right.
      rcases hseg.right with hend | hsep
      · rw [length_split] at hend
        omega
      · rw [getElem?_word hshort] at hsep
        exact absurd hsep h.word_ne
    · exact hEq
    · rcases h.behind with hend | hsep
      · omega
      · exact absurd hsep (hseg.free _ (by omega) (by omega))

/-- The segments are the word, if there is one, and those of the rest. -/
theorem segment_split (h : Split sep word k rest) :
    Segment sep (word ++ (List.replicate k sep ++ rest)) first last ↔
      (word ≠ [] ∧ first = 0 ∧ last + 1 = word.length) ∨
        ∃ first' last', first = word.length + k + first' ∧ last = word.length + k + last' ∧
          Segment sep rest first' last' := by
  constructor
  · intro hseg
    have hle := hseg.le
    have hlt := hseg.lt
    rw [length_split] at hlt
    by_cases hword : first < word.length
    · have hne : word ≠ [] := List.ne_nil_of_length_pos (by omega)
      exact Or.inl ⟨hne, h.segment_in_word hseg hword⟩
    · -- It does not start with a separator, so it starts in the rest.
      have hstart : word.length + k ≤ first := by
        by_contra hsep
        exact hseg.free first (Nat.le_refl _) hle (getElem?_separator (by omega) (by omega))
      obtain ⟨first', rfl⟩ := Nat.exists_eq_add_of_le hstart
      obtain ⟨last', rfl⟩ := Nat.exists_eq_add_of_le (Nat.le_trans hstart hle)
      refine Or.inr ⟨first', last', rfl, rfl, by omega, by omega, ?_, ?_, ?_⟩
      · intro i hlo hhi
        rw [← @getElem?_rest α sep word rest k]
        exact hseg.free _ (by omega) (by omega)
      · by_cases hzero : first' = 0
        · exact Or.inl hzero
        · have hindex : word.length + k + first' - 1 = word.length + k + (first' - 1) := by omega
          have hleft := hseg.left.resolve_left (by omega)
          rw [hindex, getElem?_rest] at hleft
          exact Or.inr hleft
      · have hright := hseg.right
        rw [length_split, Nat.add_assoc, getElem?_rest] at hright
        exact hright.imp (fun hend => by omega) id
  · rintro (⟨hword, rfl, hlast⟩ | ⟨first', last', rfl, rfl, hrest⟩)
    · obtain rfl : last = word.length - 1 := by omega
      exact h.first_segment hword
    · exact h.rest_segment hrest

end Segments
