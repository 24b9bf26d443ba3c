import Feudos.Shell.Exec

/-!
# What `ksh_exec` does to the line

The line is cut at the position that `strfle` gives, while the arguments are at the one that
`strfnl` gives.  The two treat a space at the start of the line differently.

- `KeepsToLine`         : every access of a call is inside the string, and one byte changes;
- `kshExec_keepsToLine` : so it is for every string;
- `SameEffect`          : two calls do the same, whatever they leave in the line;
- `leading_spaces_iff`  : spaces before a command are not ignored.
-/

namespace Feudos

open Vga Segments

variable {m : Machine} {t : Terminal} {text name tail : List UInt8} {k : Nat}

/-! ## Bytes behind a string -/

theorem cText_append {a : List UInt8} (h : (0 : UInt8) ∈ a) (mem : List UInt8) :
    cText (a ++ mem) = cText a := by
  induction a with
  | nil =>
      cases h
  | cons c a ih =>
      by_cases hc : c = 0
      · simp [cText, hc]
      · have hrest := ih ((List.mem_cons.1 h).resolve_left (fun hEq => hc hEq.symm))
        unfold cText at hrest ⊢
        rw [List.cons_append, List.takeWhile_cons_of_pos (by simpa using hc), hrest,
          List.takeWhile_cons_of_pos (by simpa using hc)]

/-- The line behind the cut. -/
theorem store_text (text mem : List UInt8) {i : Nat} (hi : i ≤ text.length) :
    store (text ++ 0 :: mem) ((i : Int) - 1 + 1) 0 =
      some (text.take i ++ 0 :: ((text ++ [0]).drop (i + 1) ++ mem)) := by
  have hindex : (i : Int) - 1 + 1 = i := by omega
  have hlen : (text ++ 0 :: mem).length = text.length + (mem.length + 1) := by simp
  have hmem : text ++ 0 :: mem = text ++ [0] ++ mem := by simp
  rw [hindex, store, if_pos (by rw [hlen]; omega), Int.toNat_natCast,
    List.set_eq_take_append_cons_drop, if_pos (by rw [hlen]; omega),
    List.take_append_of_le_length hi, hmem,
    List.drop_append_of_le_length (by rw [List.length_append, List.length_singleton]; omega)]

/-- The cut leaves the name, terminated, and what is behind it. -/
theorem set_cut {i : Nat} (hi : i ≤ text.length) :
    (text ++ [0]).set i 0 = text.take i ++ 0 :: (text ++ [0]).drop (i + 1) := by
  have hlen : i < (text ++ [0]).length := by
    rw [List.length_append, List.length_singleton]
    omega
  rw [List.set_eq_take_append_cons_drop, if_pos hlen, List.take_append_of_le_length hi]

/-- The old terminator is still there, or was the cut. -/
theorem set_terminator (text : List UInt8) (i : Nat) :
    ((text ++ [0]).set i 0)[text.length]? = some 0 := by
  by_cases hi : i = text.length
  · rw [hi, List.getElem?_set_self (by simp)]
  · rw [List.getElem?_set_ne hi, List.getElem?_concat_length]

/-- The arguments do not depend on the bytes behind the string, when they end in it. -/
theorem cText_kshArgs {argsStart : Option Nat} {cmd : List UInt8}
    (hargs : ∀ p ∈ argsStart, (0 : UInt8) ∈ cmd.drop p) (mem : List UInt8) :
    cText (kshArgs argsStart (cmd ++ mem)) = cText (kshArgs argsStart cmd) := by
  cases argsStart with
  | none =>
      rfl
  | some p =>
      have hnul := hargs p rfl
      have hin : p ≤ cmd.length := by
        by_contra hover
        rw [List.drop_eq_nil_of_le (by omega)] at hnul
        cases hnul
      rw [kshArgs, kshArgs, List.drop_append_of_le_length hin]
      exact cText_append hnul mem

/-- Neither does what happens after the cut. -/
theorem kshDispatch_frame (hname : NulFree name) {argsStart : Option Nat}
    (hargs : ∀ p ∈ argsStart, (0 : UInt8) ∈ (name ++ 0 :: tail).drop p) (m : Machine)
    (t : Terminal) :
    ∃ e, kshDispatch m t argsStart (name ++ 0 :: tail) = some e ∧ e.cmd = name ++ 0 :: tail ∧
      (∀ x ∈ e.calls, x.2 = cText (kshArgs argsStart e.cmd)) ∧
      ∀ mem, kshDispatch m t argsStart (name ++ 0 :: (tail ++ mem)) =
        some { e with cmd := e.cmd ++ mem } := by
  have hbase := kshDispatch_eq hname m t argsStart tail
  have hall := fun mem => kshDispatch_eq hname m t argsStart (tail ++ mem)
  have hmem : ∀ mem, name ++ 0 :: (tail ++ mem) = name ++ 0 :: tail ++ mem := by
    intro mem
    rw [List.append_assoc, List.cons_append]
  simp only [hmem] at hall ⊢
  cases hfind : kshHandlers.find? (fun cur => name = bytes cur.name) with
  | none =>
      simp only [hfind] at hbase hall
      exact ⟨_, hbase, rfl, fun x hx => absurd hx List.not_mem_nil, hall⟩
  | some cur =>
      simp only [hfind] at hbase hall
      refine ⟨_, hbase, rfl, fun x hx => ?_, fun mem => ?_⟩
      · rw [List.mem_singleton.1 hx]
      -- The handler is called with the same string.
      · have hsame := cText_kshArgs hargs mem
        rw [hall mem, hsame, call_congr m t hsame cur.func]

/-- The cut and the arguments are in the string, and what lies behind it makes no difference. -/
theorem kshExec_frame (m : Machine) (t : Terminal) (hfree : NulFree text) :
    ∃ (i : Nat) (argsStart : Option Nat) (e : Exec),
      (∀ mem, strfnl (text ++ 0 :: mem) 32 = some argsStart) ∧
      (∀ mem, strfle (text ++ 0 :: mem) 32 = some ((i : Int) - 1)) ∧
      (∀ p ∈ argsStart, p < text.length) ∧ i ≤ text.length ∧ e.cmd = (text ++ [0]).set i 0 ∧
      (∀ x ∈ e.calls, x.2 = cText (kshArgs argsStart e.cmd)) ∧
      ∀ mem, kshExec m t (text ++ 0 :: mem) = some { e with cmd := e.cmd ++ mem } := by
  obtain ⟨i, hi, hend⟩ := @strfle_text 32 text (by decide) hfree
  obtain ⟨argsStart, hargs, hnext⟩ := @strfnl_text 32 text (by decide) hfree
  have hname : NulFree (text.take i) := fun hmem => hfree (List.mem_of_mem_take hmem)
  -- From the arguments on there is always the end of the string.
  have hnul : ∀ p ∈ argsStart, (0 : UInt8) ∈ ((text ++ [0]).set i 0).drop p := by
    intro p hp
    have hlt := hargs p hp
    refine List.mem_of_getElem? (i := text.length - p) ?_
    rw [List.getElem?_drop, Nat.add_sub_cancel' (Nat.le_of_lt hlt), set_terminator]
  rw [set_cut hi] at hnul
  obtain ⟨e, -, hcmd, hcalls, hframe⟩ := kshDispatch_frame hname hnul m t
  refine ⟨i, argsStart, e, hnext, hend, hargs, hi, ?_, hcalls, fun mem => ?_⟩
  · rw [hcmd, set_cut hi]
  · rw [kshExec_eq, hnext, Option.bind_some, hend, Option.bind_some, store_text text mem hi,
      Option.bind_some, hframe]

/-! ## Inside the line -/

/-- A call on the string `text` in a buffer of just its size, where every function has a result, so
that all reads were inside the buffer.  The cut is at index `i`, the handler's string starts at
`argsStart`, and both strings passed on end inside; what lies behind the buffer is neither read nor
changed. -/
structure KeepsToLine (m : Machine) (t : Terminal) (text : List UInt8) (i : Nat)
    (argsStart : Option Nat) (e : Exec) : Prop where
  strfnl : strfnl (text ++ [0]) 32 = some argsStart
  strfle : strfle (text ++ [0]) 32 = some ((i : Int) - 1)
  exec : kshExec m t (text ++ [0]) = some e
  store : i ≤ text.length ∧ e.cmd = (text ++ [0]).set i 0
  name : (e.cmd)[i]? = some 0
  calls : ∀ x ∈ e.calls, x.2 = cText (kshArgs argsStart e.cmd)
  args : ∀ p ∈ argsStart, ∃ j, p ≤ j ∧ j ≤ text.length ∧ (e.cmd)[j]? = some 0
  behind : ∀ mem, kshExec m t (text ++ 0 :: mem) = some { e with cmd := e.cmd ++ mem }

/-- On every string, with whatever spaces, `ksh_exec` and the functions it calls keep to it. -/
theorem kshExec_keepsToLine (m : Machine) (t : Terminal) (text : List UInt8)
    (hfree : NulFree text) : ∃ i argsStart e, KeepsToLine m t text i argsStart e := by
  obtain ⟨i, argsStart, e, hnext, hend, hargs, hi, hcmd, hcalls, hframe⟩ :=
    kshExec_frame m t hfree
  refine ⟨i, argsStart, e, hnext [], hend [], ?exec, ⟨hi, hcmd⟩, ?name, hcalls, ?args, hframe⟩
  case exec =>
    have hexact := hframe []
    rw [List.append_nil] at hexact
    exact hexact
  case name =>
    rw [hcmd, List.getElem?_set_self (by simp; omega)]
  case args =>
    intro p hp
    refine ⟨text.length, Nat.le_of_lt (hargs p hp), Nat.le_refl _, ?_⟩
    rw [hcmd, set_terminator]

/-- The line ` a`: the cut is behind the space, where the arguments start. -/
theorem kshExec_keepsToLine_space :
    NulFree (bytes " a") ∧
      ∃ i argsStart e, KeepsToLine ⟨0, fun _ => ⟨0, 0, 0, 0⟩, []⟩
        (started vga640 (fun _ => 0) 0x0F) (bytes " a") i argsStart e := by
  have hfree : NulFree (bytes " a") := by decide
  exact ⟨hfree, kshExec_keepsToLine _ _ (bytes " a") hfree⟩

/-! ## Spaces before the command -/

/-- Two calls of `ksh_exec` do the same: they call the same handler with the same string or, without
a handler, report the same name, and they return the same. -/
structure SameEffect (e e' : Exec) : Prop where
  calls : e.calls = e'.calls
  reported : e.calls = [] → cText e.cmd = cText e'.cmd
  result : e.result = e'.result

/-- After a space `ksh_exec` reports an unknown command, whose name is that space. -/
theorem kshExec_space (m : Machine) (t : Terminal) (hfree : NulFree text) (mem : List UInt8) :
    ∃ e, kshExec m t (32 :: (text ++ 0 :: mem)) = some e ∧ e.calls = [] ∧ cText e.cmd = [32] := by
  have hspace : NulFree [32] := by decide
  have hline : NulFree (32 :: text) := fun hmem =>
    hfree ((List.mem_cons.1 hmem).resolve_left (by decide))
  obtain ⟨argsStart, -, hnext⟩ := @strfnl_text 32 (32 :: text) (by decide) hline
  -- The byte behind the space becomes the terminator.
  obtain ⟨c, mem', hbehind⟩ : ∃ c mem', text ++ 0 :: mem = c :: mem' :=
    List.exists_cons_of_ne_nil (by simp)
  have hend : strfle (32 :: (text ++ 0 :: mem)) 32 = some 0 := strfle_separator (by decide) _
  have hcut : store (32 :: (text ++ 0 :: mem)) (0 + 1) 0 = some ([32] ++ 0 :: mem') := by
    rw [hbehind]
    exact store_cut [32] c mem'
  have hfind : kshHandlers.find? (fun cur => [32] = bytes cur.name) = none := by decide
  have hdispatch := kshDispatch_eq hspace m t argsStart mem'
  simp only [hfind] at hdispatch
  have hexec : kshExec m t (32 :: (text ++ 0 :: mem)) =
      kshDispatch m t argsStart ([32] ++ 0 :: mem') := by
    have hnext' := hnext mem
    rw [List.cons_append] at hnext'
    rw [kshExec_eq, hnext', Option.bind_some, hend, Option.bind_some, hcut, Option.bind_some]
  exact ⟨_, hexec.trans hdispatch, rfl, cText_nul hspace mem'⟩

/-- A line that begins with a name never has that effect. -/
theorem kshExec_not_space (m : Machine) (t : Terminal) (hfree : NulFree text) (hne : text ≠ [])
    (hhead : text.head? ≠ some 32) (mem : List UInt8) :
    ∃ e, kshExec m t (text ++ 0 :: mem) = some e ∧ ¬ (e.calls = [] ∧ cText e.cmd = [32]) := by
  obtain ⟨name, k, rest, rfl, h⟩ := exists_split 32 text
  have hname : name ≠ [] := h.word_ne_nil hne hhead
  have hline : CommandLine name k rest :=
    ⟨hname, lexeme_of_free hfree.of_append.1 h.word_free, hfree.of_append.2.of_append.2,
      h.rest_head, h.rest_nil⟩
  obtain ⟨mem', args, -, hexec⟩ := kshExec_line hline m t mem
  simp only [List.append_assoc]
  cases hfind : kshHandlers.find? (fun cur => name = bytes cur.name) with
  | none =>
      rw [hfind] at hexec
      refine ⟨_, hexec, fun hboth => ?_⟩
      -- The name reported is the line's, and has no space.
      have hreported : name = [32] := (cText_nul hline.name_nulFree mem').symm.trans hboth.2
      exact h.word_free (by rw [hreported]; exact List.mem_singleton_self 32)
  | some cur =>
      rw [hfind] at hexec
      exact ⟨_, hexec, fun hboth => List.cons_ne_nil _ _ hboth.1⟩

/-- Spaces in front of a command change what `ksh_exec` does with it, however many they are and
whatever the command is. -/
theorem leading_spaces_iff (m : Machine) (t : Terminal) (k : Nat) (c mem mem' : List UInt8)
    (hfree : NulFree c) (hne : c ≠ []) (hhead : c.head? ≠ some 32) :
    ∃ e e', kshExec m t (List.replicate k 32 ++ (c ++ 0 :: mem)) = some e ∧
      kshExec m t (c ++ 0 :: mem') = some e' ∧ (SameEffect e e' ↔ k = 0) := by
  cases k with
  | zero =>
      -- What lies behind the string makes no difference.
      obtain ⟨i, argsStart, e, -, -, -, -, hcmd, -, hframe⟩ := kshExec_frame m t hfree
      have hnul : (0 : UInt8) ∈ e.cmd := List.mem_of_getElem? (hcmd ▸ set_terminator c i)
      refine ⟨_, _, hframe mem, hframe mem', fun _ => rfl, fun _ => ⟨rfl, fun _ => ?_, rfl⟩⟩
      rw [cText_append hnul, cText_append hnul]
  | succ k =>
      have hspaces : NulFree (List.replicate k 32 ++ c) := fun hmem =>
        (List.mem_append.1 hmem).elim (fun hin => by simp at hin) hfree
      obtain ⟨e, hexec, hcalls, hname⟩ := kshExec_space m t hspaces mem
      obtain ⟨e', hexec', hother⟩ := kshExec_not_space m t hfree hne hhead mem'
      rw [List.append_assoc] at hexec
      refine ⟨e, e', hexec, hexec', fun hsame => ?_, fun hzero => absurd hzero (Nat.succ_ne_zero k)⟩
      exact absurd ⟨hsame.calls.symm.trans hcalls, (hsame.reported hcalls).symm.trans hname⟩ hother

/-- Two spaces before `help`. -/
theorem leading_spaces_iff_help :
    let m : Machine := ⟨0, fun _ => ⟨0, 0, 0, 0⟩, []⟩
    let t := started vga640 (fun _ => 0) 0x0F
    NulFree (bytes "help") ∧ bytes "help" ≠ [] ∧ (bytes "help").head? ≠ some 32 ∧
      ∃ e e', kshExec m t (List.replicate 2 32 ++ (bytes "help" ++ 0 :: [])) = some e ∧
        kshExec m t (bytes "help" ++ 0 :: []) = some e' ∧ (SameEffect e e' ↔ 2 = 0) := by
  have hfree : NulFree (bytes "help") := by decide
  have hne : bytes "help" ≠ [] := by decide
  have hhead : (bytes "help").head? ≠ some 32 := by decide
  exact ⟨hfree, hne, hhead, leading_spaces_iff _ _ 2 (bytes "help") [] [] hfree hne hhead⟩

/-- One space before `help`: the handler is not called, and the name reported is the space. -/
theorem space_before_help :
    let m : Machine := ⟨0, fun _ => ⟨0, 0, 0, 0⟩, []⟩
    let t := started vga640 (fun _ => 0) 0x0F
    ∃ e e', kshExec m t (List.replicate 1 32 ++ cstr "help") = some e ∧
      kshExec m t (cstr "help") = some e' ∧ e.calls = [] ∧ cText e.cmd = bytes " " ∧
        e.result = some false ∧ e'.calls = [(.help, [])] ∧ e'.result = some true ∧
          ¬ SameEffect e e' := by
  intro m t
  have hspace : (kshExec m t (List.replicate 1 32 ++ cstr "help")).map
      (fun e => (e.calls, cText e.cmd, e.result)) = some ([], bytes " ", some false) := by
    decide +kernel
  have hhelp : (kshExec m t (cstr "help")).map (fun e => (e.calls, e.result)) =
      some ([(.help, [])], some true) := by
    decide +kernel
  obtain ⟨e, hexec, he⟩ := Option.map_eq_some_iff.1 hspace
  obtain ⟨e', hexec', he'⟩ := Option.map_eq_some_iff.1 hhelp
  simp only [Prod.mk.injEq] at he he'
  refine ⟨e, e', hexec, hexec', he.1, he.2.1, he.2.2, he'.1, he'.2, fun hsame => ?_⟩
  have hcalls := hsame.calls
  rw [he.1, he'.1] at hcalls
  cases hcalls

end Feudos
