import Feudos.Library.Segments
import Feudos.Util.Str

/-!
# Words of a string

`strfle` finds the end of a lexeme and `strfnl` the start of the next one, each by a loop of its
own.  Both are described here on a text that is split into its first lexeme, the separators behind
it, and the rest.

- `strfnl_split`, `strfle_split` : what the two functions return on such a text;
- `strfnl_text`, `strfle_text`   : on every string they stay inside it;
- `lexemes`                      : the walk from lexeme to lexeme;
- `lexemes_are_segments`         : the walk ends, and visits the words of the string in order.
-/

namespace Feudos

open Segments

variable {sep : UInt8} {text word rest : List UInt8} {k : Nat}

/-! ## The two functions on a split text -/

theorem NulFree.of_append {a b : List UInt8} (h : NulFree (a ++ b)) : NulFree a ∧ NulFree b :=
  ⟨fun hmem => h (List.mem_append_left b hmem), fun hmem => h (List.mem_append_right a hmem)⟩

theorem lexeme_of_free (hnul : NulFree word) (hsep : sep ∉ word) : Lexeme sep word :=
  fun _ hc => ⟨fun hEq => hnul (hEq ▸ hc), fun hEq => hsep (hEq ▸ hc)⟩

/-- `strfnl` finds the rest, if it is not empty. -/
theorem strfnl_split (hsep : sep ≠ 0) (h : Split sep word k rest) (hword : NulFree word)
    (hrest : NulFree rest) (mem : List UInt8) :
    strfnl (word ++ (List.replicate k sep ++ (rest ++ 0 :: mem))) sep =
      some (if rest = [] then none else some (word.length + k)) := by
  rw [strfnl, strfnlFrom_lexeme (lexeme_of_free hword h.word_free), strfnlFrom_separators hsep,
    Nat.zero_add]
  cases rest with
  | nil =>
      rw [if_pos rfl]
      exact strfnlFrom_nul sep _ _ mem
  | cons c rest =>
      -- The rest begins with a character of a lexeme, after at least one separator.
      have hseps : k ≠ 0 := fun hzero => List.cons_ne_nil _ _ (h.rest_nil hzero)
      have hnul : c ≠ 0 := fun hEq => hrest (by simp [hEq])
      have hhead : c ≠ sep := fun hEq => h.rest_head (by simp [hEq])
      rw [if_neg (List.cons_ne_nil _ _), decide_eq_true hseps, Bool.or_true]
      exact strfnlFrom_found hnul hhead _ _

/-- Behind the first lexeme there is a byte, a separator or the terminator. -/
theorem split_behind (h : Split sep word k rest) (mem : List UInt8) :
    ∃ c mem', List.replicate k sep ++ (rest ++ 0 :: mem) = c :: mem' ∧ (c = 0 ∨ c = sep) := by
  cases k with
  | zero =>
      rw [h.rest_nil rfl]
      exact ⟨0, mem, rfl, Or.inl rfl⟩
  | succ k =>
      exact ⟨sep, List.replicate k sep ++ (rest ++ 0 :: mem), rfl, Or.inr rfl⟩

/-- `strfle` finds the last character of the first lexeme. -/
theorem strfle_split (h : Split sep word k rest) (hword : NulFree word) (hne : word ≠ [])
    (mem : List UInt8) :
    strfle (word ++ (List.replicate k sep ++ (rest ++ 0 :: mem))) sep =
      some ((word.length : Int) - 1) := by
  obtain ⟨c, mem', hbehind, hc⟩ := split_behind h mem
  rw [hbehind]
  exact strfle_lexeme (lexeme_of_free hword h.word_free) hne hc mem'

theorem strfle_separator (hsep : sep ≠ 0) (mem : List UInt8) :
    strfle (sep :: mem) sep = some 0 := by
  rw [strfle, strfleFrom, if_neg hsep, if_pos rfl, if_pos rfl]

/-! ## The two functions on any string -/

/-- The byte behind the position that `strfle` returns belongs to the string or is its
terminator, and what lies behind the string does not matter. -/
theorem strfle_text (hsep : sep ≠ 0) (hfree : NulFree text) :
    ∃ i, i ≤ text.length ∧ ∀ mem, strfle (text ++ 0 :: mem) sep = some ((i : Int) - 1) := by
  obtain ⟨word, k, rest, rfl, h⟩ := exists_split sep text
  rw [length_split]
  simp only [List.append_assoc]
  by_cases hne : word = []
  · subst hne
    cases k with
    | zero =>
        -- The empty string: the position before it.
        rw [h.rest_nil rfl]
        exact ⟨0, Nat.zero_le _, fun _ => rfl⟩
    | succ k =>
        exact ⟨1, by omega, fun mem => strfle_separator hsep _⟩
  · exact ⟨word.length, by omega, fun mem => strfle_split h hfree.of_append.1 hne mem⟩

theorem strfnl_text (hsep : sep ≠ 0) (hfree : NulFree text) :
    ∃ next : Option Nat, (∀ d ∈ next, d < text.length) ∧
      ∀ mem, strfnl (text ++ 0 :: mem) sep = some next := by
  obtain ⟨word, k, rest, rfl, h⟩ := exists_split sep text
  refine ⟨if rest = [] then none else some (word.length + k), fun d hd => ?_, fun mem => ?_⟩
  · by_cases hend : rest = []
    · rw [if_pos hend] at hd
      cases hd
    · rw [if_neg hend, Option.mem_some_iff] at hd
      have hlen := List.length_pos_of_ne_nil hend
      rw [length_split]
      omega
  · simp only [List.append_assoc]
    exact strfnl_split hsep h hfree.of_append.1 hfree.of_append.2.of_append.2 mem

/-! ## The walk -/

/-- From the lexeme at the pointer `a`, which is at offset `p` of the string: `strfle` gives the
end of its segment, and `strfnl` the next pointer until it gives `NULL`.  Without fuel the walk is
not finished. -/
def lexemesFrom (sep : UInt8) : Nat → Nat → List UInt8 → Option (List (Nat × Int))
  | 0, _, _ => none
  | fuel + 1, p, a => do
      let last ← strfle a sep
      match ← strfnl a sep with
      | none => some [(p, p + last)]
      | some d => (lexemesFrom sep fuel (p + d) (a.drop d)).map ((p, p + last) :: ·)

/-- The walk through the string `s`, from its start or, if it begins with the separator or is
empty, from the next lexeme. -/
def lexemes (sep : UInt8) (fuel : Nat) (s : List UInt8) : Option (List (Nat × Int)) :=
  match s with
  | [] => none
  | c :: _ =>
      if c ≠ 0 ∧ c ≠ sep then
        lexemesFrom sep fuel 0 s
      else do
        match ← strfnl s sep with
        | none => some []
        | some d => lexemesFrom sep fuel d (s.drop d)

/-- The list `W` has the segments of `text`, moved by `p`, from left to right. -/
structure Visits (sep : UInt8) (p : Nat) (text : List UInt8) (W : List (Nat × Int)) : Prop where
  mem : ∀ x, x ∈ W ↔
    ∃ first last : Nat, x = (p + first, ((p + last : Nat) : Int)) ∧ Segment sep text first last
  ordered : W.Pairwise (fun x y => x.2 < y.1)

theorem segment_nil {first last : Nat} : ¬ Segment sep ([] : List UInt8) first last :=
  fun h => Nat.not_lt_zero _ h.lt

theorem visits_nil (sep : UInt8) (p : Nat) : Visits sep p [] [] where
  mem := by
    intro x
    constructor
    · intro hx
      cases hx
    · rintro ⟨first, last, -, hseg⟩
      exact absurd hseg segment_nil
  ordered := List.Pairwise.nil

/-- The segments of a split text, as pairs. -/
theorem segment_pair_split (h : Split sep word k rest) (p : Nat) (x : Nat × Int) :
    (∃ first last : Nat, x = (p + first, ((p + last : Nat) : Int)) ∧
        Segment sep (word ++ (List.replicate k sep ++ rest)) first last) ↔
      (word ≠ [] ∧ x = (p, p + ((word.length : Int) - 1))) ∨
        ∃ first last : Nat,
          x = (p + (word.length + k) + first, ((p + (word.length + k) + last : Nat) : Int)) ∧
            Segment sep rest first last := by
  constructor
  · rintro ⟨first, last, rfl, hseg⟩
    rcases (segment_split h).1 hseg with ⟨hne, rfl, hlast⟩ | ⟨first', last', rfl, rfl, hrest⟩
    · exact Or.inl ⟨hne, Prod.ext rfl (by simp only; omega)⟩
    · exact Or.inr ⟨first', last', Prod.ext (by simp only; omega) (by simp only; omega), hrest⟩
  · rintro (⟨hne, rfl⟩ | ⟨first, last, rfl, hrest⟩)
    · have hlen := List.length_pos_of_ne_nil hne
      exact ⟨0, word.length - 1, Prod.ext rfl (by simp only; omega), h.first_segment hne⟩
    · exact ⟨word.length + k + first, word.length + k + last,
        Prod.ext (by simp only; omega) (by simp only; omega), h.rest_segment hrest⟩

/-- Separators at the start are passed over. -/
theorem Visits.skip {p : Nat} {W : List (Nat × Int)} (h : Split sep [] k rest)
    (hW : Visits sep (p + k) rest W) : Visits sep p (List.replicate k sep ++ rest) W where
  mem := by
    intro x
    have hsplit := segment_pair_split h p x
    rw [List.nil_append, List.length_nil, Nat.zero_add] at hsplit
    rw [hsplit, hW.mem]
    simp
  ordered := hW.ordered

/-- One lexeme more at the start. -/
theorem Visits.cons {p : Nat} {W : List (Nat × Int)} (h : Split sep word k rest)
    (hne : word ≠ []) (hW : Visits sep (p + (word.length + k)) rest W) :
    Visits sep p (word ++ (List.replicate k sep ++ rest))
      ((p, p + ((word.length : Int) - 1)) :: W) where
  mem := by
    intro x
    rw [segment_pair_split h, List.mem_cons, hW.mem]
    simp only [ne_eq, hne, not_false_eq_true, true_and]
  ordered := by
    refine List.pairwise_cons.2 ⟨fun x hx => ?_, hW.ordered⟩
    obtain ⟨first, last, rfl, -⟩ := (hW.mem x).1 hx
    simp only
    omega

/-! ## The walk visits the words -/

/-- One step of the walk: it ends, or goes on at the rest. -/
theorem lexemesFrom_split (hsep : sep ≠ 0) (h : Split sep word k rest) (hne : word ≠ [])
    (hword : NulFree word) (hrest : NulFree rest) (fuel p : Nat) (mem : List UInt8) :
    lexemesFrom sep (fuel + 1) p (word ++ (List.replicate k sep ++ (rest ++ 0 :: mem))) =
      if rest = [] then some [(p, p + ((word.length : Int) - 1))]
      else (lexemesFrom sep fuel (p + (word.length + k)) (rest ++ 0 :: mem)).map
        ((p, p + ((word.length : Int) - 1)) :: ·) := by
  have hlast := strfle_split h hword hne mem
  have hnext := strfnl_split hsep h hword hrest mem
  have hdrop : (word ++ (List.replicate k sep ++ (rest ++ 0 :: mem))).drop (word.length + k) =
      rest ++ 0 :: mem := by
    rw [← List.append_assoc, List.drop_left' (by simp)]
  rw [lexemesFrom, hlast, hnext]
  by_cases hend : rest = []
  · simp only [if_pos hend, Option.bind_eq_bind, Option.bind_some]
  · simp only [if_neg hend, Option.bind_eq_bind, Option.bind_some, hdrop]

/-- The walk from a lexeme at offset `p`. -/
theorem lexemesFrom_visits (hsep : sep ≠ 0) (text : List UInt8) (p : Nat) (mem : List UInt8)
    (hfree : NulFree text) (hstart : text ≠ []) (hhead : text.head? ≠ some sep) :
    ∃ W, (∀ fuel, text.length ≤ fuel → lexemesFrom sep fuel p (text ++ 0 :: mem) = some W) ∧
      Visits sep p text W := by
  induction hn : text.length using Nat.strongRecOn generalizing text p with
  | ind n ih =>
      obtain ⟨word, k, rest, rfl, h⟩ := exists_split sep text
      have hrest : NulFree rest := hfree.of_append.2.of_append.2
      have hne := h.word_ne_nil hstart hhead
      have hlen := List.length_pos_of_ne_nil hne
      have hstep := fun fuel => lexemesFrom_split hsep h hne hfree.of_append.1 hrest fuel p mem
      rw [length_split] at hn
      simp only [List.append_assoc]
      by_cases hend : rest = []
      · -- No lexeme follows: the walk ends here.
        refine ⟨[(p, p + ((word.length : Int) - 1))], fun fuel hfuel => ?_, ?_⟩
        · obtain ⟨fuel, rfl⟩ := Nat.exists_eq_succ_of_ne_zero (n := fuel) (by omega)
          rw [hstep, if_pos hend]
        · rw [hend] at h ⊢
          exact (visits_nil sep _).cons h hne
      · obtain ⟨W, hwalk, hW⟩ := ih rest.length (by omega) rest (p + (word.length + k)) hrest
          hend h.rest_head rfl
        refine ⟨(p, p + ((word.length : Int) - 1)) :: W, fun fuel hfuel => ?_, hW.cons h hne⟩
        obtain ⟨fuel, rfl⟩ := Nat.exists_eq_succ_of_ne_zero (n := fuel) (by omega)
        rw [hstep, if_neg hend, hwalk fuel (by omega), Option.map_some]

/-- A walk that does not start in a lexeme: on the empty string, or at a separator. -/
theorem lexemes_split (hsep : sep ≠ 0) (h : Split sep [] k rest) (hrest : NulFree rest)
    (fuel : Nat) (mem : List UInt8) :
    lexemes sep fuel (List.replicate k sep ++ (rest ++ 0 :: mem)) =
      if rest = [] then some [] else lexemesFrom sep fuel k (rest ++ 0 :: mem) := by
  have hnext := strfnl_split hsep h (List.not_mem_nil : NulFree []) hrest mem
  have hdrop : (List.replicate k sep ++ (rest ++ 0 :: mem)).drop k = rest ++ 0 :: mem :=
    List.drop_left' (List.length_replicate ..)
  obtain ⟨c, mem', hbehind, hc⟩ := split_behind h mem
  have hnot : ¬ (c ≠ 0 ∧ c ≠ sep) := fun hboth => hc.elim hboth.1 hboth.2
  rw [List.nil_append, List.length_nil, Nat.zero_add] at hnext
  rw [hbehind] at hnext hdrop ⊢
  rw [lexemes, if_neg hnot, hnext]
  by_cases hend : rest = []
  · simp only [if_pos hend, Option.bind_eq_bind, Option.bind_some]
  · simp only [if_neg hend, Option.bind_eq_bind, Option.bind_some, hdrop]

/-- The walk through a whole string. -/
theorem lexemes_visits (hsep : sep ≠ 0) (text mem : List UInt8) (hfree : NulFree text) :
    ∃ W, (∀ fuel, text.length ≤ fuel → lexemes sep fuel (text ++ 0 :: mem) = some W) ∧
      Visits sep 0 text W := by
  obtain ⟨word, k, rest, rfl, h⟩ := exists_split sep text
  cases word with
  | cons c word =>
      -- The string begins with a lexeme.
      have hnul : c ≠ 0 := fun hEq => hfree (by simp [hEq])
      have hc : c ≠ sep := fun hEq => h.word_free (by simp [hEq])
      have hhead : (c :: word ++ (List.replicate k sep ++ rest)).head? ≠ some sep :=
        fun hEq => hc (Option.some.inj hEq)
      obtain ⟨W, hwalk, hW⟩ :=
        lexemesFrom_visits hsep _ 0 mem hfree (List.cons_ne_nil _ _) hhead
      refine ⟨W, fun fuel hfuel => ?_, hW⟩
      rw [← hwalk fuel hfuel]
      exact if_pos ⟨hnul, hc⟩
  | nil =>
      have hrest : NulFree rest := hfree.of_append.2.of_append.2
      have hstep := fun fuel => lexemes_split hsep h hrest fuel mem
      simp only [List.nil_append, List.append_assoc]
      by_cases hend : rest = []
      · refine ⟨[], fun fuel _ => ?_, Visits.skip h ?_⟩
        · rw [hstep, if_pos hend]
        · rw [hend]
          exact visits_nil sep _
      · obtain ⟨W, hwalk, hW⟩ :=
          lexemesFrom_visits hsep rest (0 + k) mem hrest hend h.rest_head
        refine ⟨W, fun fuel hfuel => ?_, hW.skip h⟩
        rw [List.length_append, List.length_replicate] at hfuel
        rw [hstep, if_neg hend, ← hwalk fuel (by omega), Nat.zero_add]

/-- Starting at the first lexeme and going from each lexeme to the next one, `strfle` and `strfnl`
visit the maximal non-empty segments without the separator, all of them, from left to right, and
the walk ends: as many steps as the string has characters are enough. -/
theorem lexemes_are_segments (sep : UInt8) (text mem : List UInt8) (hsep : sep ≠ 0)
    (hfree : NulFree text) :
    ∃ W, (∀ fuel, text.length ≤ fuel → lexemes sep fuel (text ++ 0 :: mem) = some W) ∧
      (∀ x, x ∈ W ↔
        ∃ first last : Nat, x = (first, (last : Int)) ∧ Segment sep text first last) ∧
      W.Pairwise (fun x y => x.2 < y.1) := by
  obtain ⟨W, hwalk, hW⟩ := lexemes_visits hsep text mem hfree
  refine ⟨W, hwalk, fun x => ?_, hW.ordered⟩
  rw [hW.mem]
  simp only [Nat.zero_add]

/-- The words of `  ab c `. -/
theorem lexemes_are_segments_words :
    (32 : UInt8) ≠ 0 ∧ NulFree (bytes "  ab c ") ∧
      ∃ W, lexemes 32 7 (bytes "  ab c " ++ 0 :: []) = some W ∧
        W.Pairwise (fun x y => x.2 < y.1) := by
  have hfree : NulFree (bytes "  ab c ") := by decide
  obtain ⟨W, hwalk, -, hordered⟩ := lexemes_are_segments 32 (bytes "  ab c ") [] (by decide) hfree
  exact ⟨by decide, hfree, W, hwalk 7 (by decide), hordered⟩

example : lexemes 32 7 (cstr "  ab c ") = some [(2, 3), (5, 5)] := by decide

end Feudos
