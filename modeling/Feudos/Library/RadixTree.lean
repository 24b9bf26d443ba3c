import Mathlib.Data.Finset.Card
import Mathlib.Data.List.Induction
import Mathlib.Logic.Function.Basic

/-!
# Radix trees in a memory of nodes

A memory `m : N → I → E` gives every node its entries; `next e` is the node an entry leads to.
From a root, a list of indices is followed entry by entry.

- `follow`      : the node at a path;
- `Tree`        : no node is reached by two paths of at most `d` indices;
- `find`        : the value at a path and a last index, as `leaf` reads the entry;
- `clear_*`     : clearing a node that no path reaches changes nothing;
- `link_*`      : linking a cleared node in an empty entry finds the same values;
- `missing`     : the paths that lead to no node; linking takes one of them away;
- `setLeaf_*`   : writing an entry of a node at depth `d` changes that value and no other.

Nothing here knows what the entries are.
-/

namespace RadixTree

variable {N : Type*} {I : Type*} {E : Type*} {V : Type*}

/-! ## Following a path -/

/-- The node reached from `n` through the entries of a path. -/
def follow (next : E → Option N) (m : N → I → E) (n : N) : List I → Option N
  | [] => some n
  | i :: p => (next (m n i)).bind (fun n' => follow next m n' p)

variable {next : E → Option N} {leaf : E → Option V} {m : N → I → E} {root n f : N} {p q : List I}
variable {i : I} {e empty : E} {d : Nat}

theorem follow_append (next : E → Option N) (m : N → I → E) (n : N) (p q : List I) :
    follow next m n (p ++ q) = (follow next m n p).bind (fun n' => follow next m n' q) := by
  induction p generalizing n with
  | nil =>
      rfl
  | cons i p ih =>
      simp only [List.cons_append, follow, Option.bind_assoc]
      exact congrArg _ (funext fun n' => ih n')

theorem follow_concat (next : E → Option N) (m : N → I → E) (n : N) (p : List I) (i : I) :
    follow next m n (p ++ [i]) = (follow next m n p).bind (fun n' => next (m n' i)) := by
  rw [follow_append]
  exact congrArg _ (funext fun n' => by simp [follow])

/-- One index more. -/
theorem follow_snoc (hn : follow next m root p = some n) (i : I) :
    follow next m root (p ++ [i]) = next (m n i) := by
  rw [follow_concat, hn]
  rfl

/-- The node is reached by a path of at most `d` indices. -/
def Reached (next : E → Option N) (m : N → I → E) (root : N) (d : Nat) (n : N) : Prop :=
  ∃ p : List I, p.length ≤ d ∧ follow next m root p = some n

/-- No node is reached by two paths of at most `d` indices. -/
def Tree (next : E → Option N) (m : N → I → E) (root : N) (d : Nat) : Prop :=
  ∀ (p q : List I) (n : N), p.length ≤ d → q.length ≤ d → follow next m root p = some n →
    follow next m root q = some n → p = q

/-- The value at index `i` of the node at a path. -/
def find (next : E → Option N) (leaf : E → Option V) (m : N → I → E) (root : N) (p : List I)
    (i : I) : Option V :=
  (follow next m root p).bind (fun n => leaf (m n i))

/-- Two memories that agree on the nodes a path goes through follow it alike. -/
theorem follow_congr {m' : N → I → E} (p : List I)
    (h : ∀ (q : List I) (i : I) (n : N), q ++ [i] <+: p → follow next m root q = some n →
      next (m' n i) = next (m n i)) :
    follow next m' root p = follow next m root p := by
  induction p using List.reverseRecOn with
  | nil =>
      rfl
  | append_singleton p i ih =>
      have hinit : follow next m' root p = follow next m root p :=
        ih (fun q j n hq hn => h q j n (hq.trans (List.prefix_append p [i])) hn)
      rw [follow_concat, follow_concat, hinit]
      cases hp : follow next m root p with
      | none =>
          rfl
      | some n =>
          exact h p i n (List.prefix_refl _) hp

theorem length_snoc_le {j : I} (h : p.length + (j :: q).length ≤ d) (i : I) :
    (p ++ [i]).length + q.length ≤ d := by
  rw [List.length_cons] at h
  rw [List.length_append, List.length_singleton]
  omega

/-- A path through an entry of the node at `p` is longer than `p`. -/
theorem length_lt_of_snoc (h : p ++ [i] <+: q) : p.length < q.length := by
  have hle := h.length_le
  rw [List.length_append, List.length_singleton] at hle
  exact hle

/-- The paths of `P` that lead to no node. -/
def missing (next : E → Option N) (m : N → I → E) (root : N) (P : Finset (List I)) :
    Finset (List I) :=
  P.filter (fun p => follow next m root p = none)

theorem mem_missing {P : Finset (List I)} :
    p ∈ missing next m root P ↔ p ∈ P ∧ follow next m root p = none :=
  Finset.mem_filter

/-- A path that leads to a node goes through nodes. -/
theorem follow_of_prefix (h : p <+: q) (hn : follow next m root q = some n) :
    ∃ n', follow next m root p = some n' := by
  rcases h with ⟨r, rfl⟩
  rw [follow_append, Option.bind_eq_some_iff] at hn
  exact ⟨hn.choose, hn.choose_spec.1⟩

/-! ## Clearing a node that is not reached -/

section

variable [DecidableEq N]

/-- All entries of a node become `empty`. -/
def clear (m : N → I → E) (f : N) (empty : E) : N → I → E :=
  Function.update m f (fun _ => empty)

@[simp] theorem clear_self (m : N → I → E) (f : N) (empty : E) (i : I) :
    clear m f empty f i = empty := by
  simp [clear]

theorem clear_of_ne (m : N → I → E) (empty : E) (hne : n ≠ f) (i : I) :
    clear m f empty n i = m n i := by
  simp [clear, hne]

theorem follow_clear (hf : ¬ Reached next m root d f) (hp : p.length ≤ d) :
    follow next (clear m f empty) root p = follow next m root p := by
  apply follow_congr
  intro q i n hq hn
  have hlen : q.length ≤ d := Nat.le_of_lt (Nat.lt_of_lt_of_le (length_lt_of_snoc hq) hp)
  have hne : n ≠ f := by
    intro hEq
    exact hf ⟨q, hlen, hEq ▸ hn⟩
  rw [clear_of_ne m empty hne]

theorem Tree.clear (h : Tree next m root d) (hf : ¬ Reached next m root d f) :
    Tree next (clear m f empty) root d := by
  intro p q n hp hq hpn hqn
  rw [follow_clear hf hp] at hpn
  rw [follow_clear hf hq] at hqn
  exact h p q n hp hq hpn hqn

/-! ## Writing an entry -/

variable [DecidableEq I]

/-- One entry of one node is written. -/
def set (m : N → I → E) (n : N) (i : I) (e : E) : N → I → E :=
  Function.update m n (Function.update (m n) i e)

theorem set_apply (m : N → I → E) (n : N) (i : I) (e : E) (n' : N) (i' : I) :
    set m n i e n' i' = if n' = n ∧ i' = i then e else m n' i' := by
  unfold set
  by_cases hn : n' = n
  · subst hn
    by_cases hi : i' = i
    · simp [hi]
    · simp [hi]
  · simp [hn]

/-- Paths that do not go through the entry are followed as before. -/
theorem follow_set (h : Tree next m root d) (hn : follow next m root p = some n)
    (hp : p.length ≤ d) (hq : q.length ≤ d + 1) (hnot : ¬ p ++ [i] <+: q) :
    follow next (set m n i e) root q = follow next m root q := by
  apply follow_congr
  intro r j n' hr hn'
  rw [set_apply]
  by_cases hhere : n' = n ∧ j = i
  · -- The node is reached by `p` only, so the path would go through the entry.
    have hlen : r.length ≤ d :=
      Nat.le_of_lt_succ (Nat.lt_of_lt_of_le (length_lt_of_snoc hr) hq)
    rcases hhere with ⟨rfl, rfl⟩
    have hpath : r = p := h r p n' hlen hp hn' hn
    subst hpath
    exact absurd hr hnot
  · rw [if_neg hhere]

/-! ## Writing a value -/

/-- An entry at depth `d` is on no path of at most `d` indices. -/
theorem follow_setLeaf (h : Tree next m root d) (hn : follow next m root p = some n)
    (hp : p.length = d) (hq : q.length ≤ d) :
    follow next (set m n i e) root q = follow next m root q := by
  refine follow_set h hn (Nat.le_of_eq hp) (Nat.le_succ_of_le hq) ?_
  intro hthrough
  have hlt := length_lt_of_snoc hthrough
  rw [hp] at hlt
  exact Nat.not_lt.2 hq hlt

theorem Tree.setLeaf (h : Tree next m root d) (hn : follow next m root p = some n)
    (hp : p.length = d) : Tree next (set m n i e) root d := by
  intro q r n' hq hr hqn hrn
  rw [follow_setLeaf h hn hp hq] at hqn
  rw [follow_setLeaf h hn hp hr] at hrn
  exact h q r n' hq hr hqn hrn

theorem reached_setLeaf (h : Tree next m root d) (hn : follow next m root p = some n)
    (hp : p.length = d) {n' : N} :
    Reached next (set m n i e) root d n' ↔ Reached next m root d n' := by
  constructor
  · rintro ⟨q, hq, hn'⟩
    exact ⟨q, hq, (follow_setLeaf h hn hp hq).symm.trans hn'⟩
  · rintro ⟨q, hq, hn'⟩
    exact ⟨q, hq, (follow_setLeaf h hn hp hq).trans hn'⟩

/-- Exactly the written value changes. -/
theorem find_setLeaf (h : Tree next m root d) (hn : follow next m root p = some n)
    (hp : p.length = d) (hq : q.length = d) (j : I) :
    find next leaf (set m n i e) root q j =
      if q = p ∧ j = i then leaf e else find next leaf m root q j := by
  unfold find
  rw [follow_setLeaf h hn hp (Nat.le_of_eq hq)]
  by_cases hqp : q = p
  · subst hqp
    rw [hn]
    simp only [Option.bind_some, set_apply, true_and]
    split <;> rfl
  · -- Another path leads to another node, by the tree property.
    have hne : ¬ (q = p ∧ j = i) := fun hboth => hqp hboth.1
    rw [if_neg hne]
    cases hn' : follow next m root q with
    | none =>
        rfl
    | some n' =>
        have hother : ¬ (n' = n ∧ j = i) := by
          rintro ⟨rfl, -⟩
          exact hqp (h q p n' (Nat.le_of_eq hq) (Nat.le_of_eq hp) hn' hn)
        simp only [Option.bind_some, set_apply, if_neg hother]

/-! ## Linking a cleared node -/

/-- Link the node `f`, cleared, in an empty entry. -/
def link (m : N → I → E) (n : N) (i : I) (f : N) (e empty : E) : N → I → E :=
  set (clear m f empty) n i e

theorem link_apply (m : N → I → E) (n : N) (i : I) (f : N) (e empty : E) (n' : N) (j : I) :
    link m n i f e empty n' j =
      if n' = n ∧ j = i then e else if n' = f then empty else m n' j := by
  rw [link, set_apply]
  by_cases hf : n' = f
  · rw [if_pos hf, hf, clear_self]
  · rw [if_neg hf, clear_of_ne m empty hf]

/-- What linking relies on: the entry belongs to an inner node of the tree and is empty, and `f` is
not reached. -/
structure Links (next : E → Option N) (m : N → I → E) (root : N) (d : Nat) (p : List I) (i : I)
    (n f : N) (e empty : E) : Prop where
  tree : Tree next m root d
  node : follow next m root p = some n
  inner : p.length < d
  free : next (m n i) = none
  fresh : ¬ Reached next m root d f
  target : next e = some f
  empty : next empty = none

namespace Links

variable (h : Links next m root d p i n f e empty)

include h

omit [DecidableEq N] [DecidableEq I] in
theorem node_ne : n ≠ f := by
  intro hEq
  exact h.fresh ⟨p, Nat.le_of_lt h.inner, hEq ▸ h.node⟩

omit [DecidableEq I] in
theorem follow_node : follow next (clear m f empty) root p = some n :=
  (follow_clear h.fresh (Nat.le_of_lt h.inner)).trans h.node

/-- Paths that do not go through the entry. -/
theorem follow_other (hq : q.length ≤ d) (hnot : ¬ p ++ [i] <+: q) :
    follow next (link m n i f e empty) root q = follow next m root q :=
  (follow_set (h.tree.clear h.fresh) h.follow_node (Nat.le_of_lt h.inner) (Nat.le_succ_of_le hq)
    hnot).trans (follow_clear h.fresh hq)

theorem follow_self : follow next (link m n i f e empty) root (p ++ [i]) = some f := by
  have hpath : follow next (link m n i f e empty) root p = some n := by
    refine (h.follow_other (Nat.le_of_lt h.inner) ?_).trans h.node
    intro hthrough
    exact Nat.lt_irrefl _ (length_lt_of_snoc hthrough)
  rw [follow_concat, hpath]
  simp [link, set_apply, h.target]

/-- The linked node is empty, so no path goes on from it. -/
theorem follow_below (j : I) (r : List I) :
    follow next (link m n i f e empty) root (p ++ [i] ++ j :: r) = none := by
  have hne : ¬ (f = n ∧ j = i) := fun hboth => h.node_ne hboth.1.symm
  rw [follow_append, h.follow_self]
  simp [follow, link, set_apply, hne, h.empty]

omit [DecidableEq N] [DecidableEq I] in
/-- There was no path through the entry before. -/
theorem follow_before (r : List I) : follow next m root (p ++ [i] ++ r) = none := by
  rw [follow_append, follow_concat, h.node]
  simp [h.free]

/-- One more path leads to a node. -/
theorem follow_eq_none (hq : q.length ≤ d) :
    follow next (link m n i f e empty) root q = none ↔
      follow next m root q = none ∧ q ≠ p ++ [i] := by
  by_cases hthrough : p ++ [i] <+: q
  · rcases hthrough with ⟨r, rfl⟩
    cases r with
    | nil =>
        simp [h.follow_self]
    | cons j r =>
        rw [h.follow_below j r, h.follow_before (j :: r)]
        simp
  · have hne : q ≠ p ++ [i] := fun hEq => hthrough (hEq ▸ List.prefix_refl _)
    rw [h.follow_other hq hthrough]
    exact ⟨fun hnone => ⟨hnone, hne⟩, And.left⟩

theorem card_missing {P : Finset (List I)} (hP : ∀ q ∈ P, q.length ≤ d) (hmem : p ++ [i] ∈ P) :
    (missing next (link m n i f e empty) root P).card + 1 = (missing next m root P).card := by
  have herase : missing next (link m n i f e empty) root P =
      (missing next m root P).erase (p ++ [i]) := by
    ext q
    rw [Finset.mem_erase, mem_missing, mem_missing]
    constructor
    · rintro ⟨hq, hnone⟩
      have hboth := (h.follow_eq_none (hP q hq)).1 hnone
      exact ⟨hboth.2, hq, hboth.1⟩
    · rintro ⟨hne, hq, hnone⟩
      exact ⟨hq, (h.follow_eq_none (hP q hq)).2 ⟨hnone, hne⟩⟩
  have hbefore : follow next m root (p ++ [i]) = none := by
    rw [← List.append_nil (p ++ [i])]
    exact h.follow_before []
  rw [herase]
  exact Finset.card_erase_add_one (mem_missing.2 ⟨hmem, hbefore⟩)

/-- A path either avoids the entry, and is a path of `m`, or ends in it, at `f`. -/
theorem follow_cases {n' : N} (hq : q.length ≤ d)
    (hn' : follow next (link m n i f e empty) root q = some n') :
    (q = p ++ [i] ∧ n' = f) ∨ (n' ≠ f ∧ follow next m root q = some n') := by
  by_cases hthrough : p ++ [i] <+: q
  · rcases hthrough with ⟨r, rfl⟩
    cases r with
    | nil =>
        rw [List.append_nil, h.follow_self] at hn'
        exact Or.inl ⟨List.append_nil _, (Option.some.inj hn').symm⟩
    | cons j r =>
        rw [h.follow_below j r] at hn'
        cases hn'
  · rw [h.follow_other hq hthrough] at hn'
    refine Or.inr ⟨?_, hn'⟩
    intro hEq
    exact h.fresh ⟨q, hq, hEq ▸ hn'⟩

theorem reached_cases {n' : N} (h' : Reached next (link m n i f e empty) root d n') :
    Reached next m root d n' ∨ n' = f := by
  rcases h' with ⟨q, hq, hn'⟩
  rcases h.follow_cases hq hn' with ⟨-, hf⟩ | ⟨-, hm⟩
  · exact Or.inr hf
  · exact Or.inl ⟨q, hq, hm⟩

theorem tree_link : Tree next (link m n i f e empty) root d := by
  intro q r n' hq hr hqn hrn
  -- Two paths to one node: both are new, or both are old.
  rcases h.follow_cases hq hqn with ⟨rfl, hf⟩ | ⟨hne, hqm⟩
  · rcases h.follow_cases hr hrn with ⟨rfl, -⟩ | ⟨hne, -⟩
    · rfl
    · exact absurd hf hne
  · rcases h.follow_cases hr hrn with ⟨-, hf⟩ | ⟨-, hrm⟩
    · exact absurd hf hne
    · exact h.tree q r n' hq hr hqm hrm

/-- No value changes, when an empty entry has none. -/
theorem find_link (hleaf : leaf empty = none) (hq : q.length = d) (j : I) :
    find next leaf (link m n i f e empty) root q j = find next leaf m root q j := by
  unfold find
  by_cases hthrough : p ++ [i] <+: q
  · -- Through the entry there was no value, and the new node has none.
    rcases hthrough with ⟨r, rfl⟩
    rw [h.follow_before r]
    cases r with
    | nil =>
        have hne : ¬ (f = n ∧ j = i) := fun hboth => h.node_ne hboth.1.symm
        rw [List.append_nil, h.follow_self]
        simp [link, set_apply, hne, hleaf]
    | cons j' r =>
        rw [h.follow_below j' r]
        rfl
  · rw [h.follow_other (Nat.le_of_eq hq) hthrough]
    cases hn' : follow next m root q with
    | none =>
        rfl
    | some n' =>
        have hne : n' ≠ f := fun hEq => h.fresh ⟨q, Nat.le_of_eq hq, hEq ▸ hn'⟩
        have hentry : ¬ (n' = n ∧ j = i) := by
          rintro ⟨rfl, rfl⟩
          -- `n` is an inner node, so it is not at the end of a path of `d` indices.
          have hpath : q = p :=
            h.tree q p n' (Nat.le_of_eq hq) (Nat.le_of_lt h.inner) hn' h.node
          have hinner := h.inner
          rw [← hpath, hq] at hinner
          exact Nat.lt_irrefl d hinner
        simp only [Option.bind_some, link, set_apply, if_neg hentry, clear_of_ne m empty hne]

end Links

end

end RadixTree
