import Feudos.Shell.Handlers
import Feudos.Util.Words

/-!
# Command dispatch (`ksh_exec`)

`ksh_exec` finds the arguments, cuts the line behind the command's name and looks the name up.
`kshExec_dispatch` says what it does with every line that begins with a name: the handler of that
name is called once with the text behind the spaces, and `ksh_exec` returns `true` if the handler
returns; without such a handler it reports the name and returns `false`.
-/

namespace Feudos

open Vga Segments

/-! ## `ksh_exec` -/

/-- The loop over the table. -/
def findCmd (cmd : List UInt8) : List KshCmd → Option (Option KshCmd)
  | [] => some none
  | cur :: cmds => do
      if ← streq cmd (cstr cur.name) then some (some cur) else findCmd cmd cmds

/-- What a call of `ksh_exec` leaves and does: the line after the cut, the handlers called with the
strings they receive, the terminal, and the value returned if it returns. -/
structure Exec where
  cmd : List UInt8
  calls : List (Handler × List UInt8)
  terminal : Terminal
  result : Option Bool

/-- `ksh_exec`. -/
def kshExec (m : Machine) (t : Terminal) (cmd : List UInt8) : Option Exec := do
  let argsStart ← strfnl cmd 32
  let nameEnd ← strfle cmd 32
  -- The line is cut behind the name; the arguments are found before the cut.
  let cmd ← store cmd (nameEnd + 1) 0
  let args :=
    match argsStart with
    | none => cstr ""
    | some i => cmd.drop i
  match ← findCmd cmd kshHandlers with
  | some cur =>
      let called := cur.func.call m t args
      some
        { cmd := cmd
          calls := [(cur.func, cText args)]
          terminal := called.1
          result := if called.2 then some true else none }
  | none =>
      -- No entry has this name.
      some
        { cmd := cmd
          calls := []
          terminal := kprintf t (cstr "Unknown command: %s\n") [.str (cText cmd)]
          result := some false }

/-- The memory that `args_start` points to. -/
def kshArgs : Option Nat → List UInt8 → List UInt8
  | none, _ => cstr ""
  | some i, cmd => cmd.drop i

/-- The part of `ksh_exec` after the cut. -/
def kshDispatch (m : Machine) (t : Terminal) (argsStart : Option Nat) (cmd : List UInt8) :
    Option Exec := do
  let args := kshArgs argsStart cmd
  match ← findCmd cmd kshHandlers with
  | some cur =>
      let called := cur.func.call m t args
      some
        { cmd := cmd
          calls := [(cur.func, cText args)]
          terminal := called.1
          result := if called.2 then some true else none }
  | none =>
      some
        { cmd := cmd
          calls := []
          terminal := kprintf t (cstr "Unknown command: %s\n") [.str (cText cmd)]
          result := some false }

theorem kshExec_eq (m : Machine) (t : Terminal) (cmd : List UInt8) :
    kshExec m t cmd =
      (strfnl cmd 32).bind fun argsStart =>
        (strfle cmd 32).bind fun nameEnd =>
          (store cmd (nameEnd + 1) 0).bind (kshDispatch m t argsStart) := by
  refine Option.bind_congr (fun argsStart _ => ?_)
  cases argsStart <;> rfl

/-! ## Lines -/

/-- A line is a name, spaces, and the rest behind them. -/
structure CommandLine (name : List UInt8) (k : Nat) (rest : List UInt8) : Prop where
  name_ne : name ≠ []
  name_lexeme : Lexeme 32 name
  rest_nulFree : NulFree rest
  rest_head : rest.head? ≠ some 32
  rest_nil : k = 0 → rest = []

section

variable {name rest : List UInt8} {k : Nat}

theorem CommandLine.name_nulFree (h : CommandLine name k rest) : NulFree name :=
  fun hmem => (h.name_lexeme 0 hmem).1 rfl

theorem CommandLine.split (h : CommandLine name k rest) : Split 32 name k rest :=
  ⟨fun hmem => (h.name_lexeme 32 hmem).2 rfl, h.rest_head, h.rest_nil⟩

theorem store_cut (text : List UInt8) (c : UInt8) (mem : List UInt8) :
    store (text ++ c :: mem) ((text.length : Int) - 1 + 1) 0 = some (text ++ 0 :: mem) := by
  have hindex : (text.length : Int) - 1 + 1 = text.length := by omega
  have hin : 0 ≤ (text.length : Int) ∧ (text.length : Int) < (text ++ c :: mem).length := by
    simp only [List.length_append, List.length_cons]
    omega
  rw [hindex, store, if_pos hin, Int.toNat_natCast]
  simp

theorem findCmd_eq (h : NulFree name) (mem : List UInt8) {table : List KshCmd}
    (htable : ∀ cur ∈ table, NulFree (bytes cur.name)) :
    findCmd (name ++ 0 :: mem) table =
      some (table.find? (fun cur => name = bytes cur.name)) := by
  induction table with
  | nil =>
      rfl
  | cons cur table ih =>
      have heq := streq_spec h (htable cur (List.mem_cons_self ..)) mem []
      have hrest := ih (fun d hd => htable d (List.mem_cons_of_mem _ hd))
      have hstep : findCmd (name ++ 0 :: mem) (cur :: table) =
          if name = bytes cur.name then some (some cur)
          else findCmd (name ++ 0 :: mem) table := by
        simp [findCmd, cstr, heq]
      rw [hstep, hrest, List.find?_cons]
      by_cases hfound : name = bytes cur.name
      · rw [if_pos hfound, decide_eq_true hfound]
      · rw [if_neg hfound, decide_eq_false hfound]

theorem kshHandlers_nulFree : ∀ cur ∈ kshHandlers, NulFree (bytes cur.name) := by
  unfold NulFree
  decide

theorem kshHandlers_names : ∀ cur ∈ kshHandlers, ∀ cur' ∈ kshHandlers,
    bytes cur.name = bytes cur'.name → cur = cur' := by
  decide

/-- The report of an unknown name. -/
theorem kprintf_unknown (t : Terminal) (name : List UInt8) :
    kprintf t (cstr "Unknown command: %s\n") [.str name] =
      (bytes "Unknown command: " ++ (name ++ [10])).foldl
        (fun t' c => vgaPutc t' c t.textColor) t := by
  have hformat : cstr "Unknown command: %s\n" =
      bytes "Unknown command: " ++ 37 :: 115 :: ([10] ++ [0]) := by decide
  rw [hformat]
  exact kprintf_str t (bytes "Unknown command: ") name [10] (by decide) (by decide)

/-- The argument pointer leads to the rest, also when the NUL was written before it. -/
theorem CommandLine.args (h : CommandLine name k rest) {mem mem' : List UInt8} {c : UInt8}
    (hbehind : List.replicate k 32 ++ (rest ++ 0 :: mem) = c :: mem') :
    cText (kshArgs (if rest = [] then none else some (name.length + k)) (name ++ 0 :: mem')) =
      rest := by
  by_cases hrest : rest = []
  · have hempty : cText (cstr "") = [] := by decide
    rw [if_pos hrest, hrest]
    exact hempty
  · -- The NUL took the place of the first space, and the rest is behind the last one.
    have hspaces : k ≠ 0 := fun hzero => hrest (h.rest_nil hzero)
    rcases Nat.exists_eq_succ_of_ne_zero hspaces with ⟨j, rfl⟩
    have htail : List.replicate j 32 ++ (rest ++ 0 :: mem) = mem' := by
      rw [List.replicate_succ, List.cons_append, List.cons.injEq] at hbehind
      exact hbehind.2
    have hdrop : (name ++ 0 :: mem').drop (name.length + (j + 1)) = rest ++ 0 :: mem := by
      calc
        (name ++ 0 :: mem').drop (name.length + (j + 1))
            = mem'.drop j := by
              rw [List.drop_append, List.drop_eq_nil_of_le (Nat.le_add_right _ _),
                List.nil_append, Nat.add_sub_cancel_left, List.drop_succ_cons]
        _ = (List.replicate j 32 ++ (rest ++ 0 :: mem)).drop j := by rw [htail]
        _ = rest ++ 0 :: mem := List.drop_left' (List.length_replicate ..)
    rw [if_neg hrest, kshArgs, hdrop, cText_nul h.rest_nulFree]

/-- Behind the cut, the table decides by the name alone. -/
theorem kshDispatch_eq (hname : NulFree name) (m : Machine) (t : Terminal)
    (argsStart : Option Nat) (mem : List UInt8) :
    let args := kshArgs argsStart (name ++ 0 :: mem)
    kshDispatch m t argsStart (name ++ 0 :: mem) =
      match kshHandlers.find? (fun cur => name = bytes cur.name) with
      | some cur =>
          some
            { cmd := name ++ 0 :: mem
              calls := [(cur.func, cText args)]
              terminal := (cur.func.call m t args).1
              result := if (cur.func.call m t args).2 then some true else none }
      | none =>
          some
            { cmd := name ++ 0 :: mem
              calls := []
              terminal := kprintf t (cstr "Unknown command: %s\n") [.str name]
              result := some false } := by
  simp only [kshDispatch, findCmd_eq hname mem kshHandlers_nulFree, cText_nul hname mem,
    Option.bind_eq_bind, Option.bind_some]

/-- What `ksh_exec` does with a line. -/
theorem kshExec_line (h : CommandLine name k rest) (m : Machine) (t : Terminal)
    (mem : List UInt8) :
    ∃ mem' args, cText args = rest ∧
      kshExec m t (name ++ (List.replicate k 32 ++ (rest ++ 0 :: mem))) =
        match kshHandlers.find? (fun cur => name = bytes cur.name) with
        | some cur =>
            some
              { cmd := name ++ 0 :: mem'
                calls := [(cur.func, rest)]
                terminal := (cur.func.call m t args).1
                result := if (cur.func.call m t args).2 then some true else none }
        | none =>
            some
              { cmd := name ++ 0 :: mem'
                calls := []
                terminal := kprintf t (cstr "Unknown command: %s\n") [.str name]
                result := some false } := by
  obtain ⟨c, mem', hbehind, -⟩ := split_behind h.split mem
  -- One fact for each call that `ksh_exec` makes before it looks at the table's answer.
  have hnext := strfnl_split (by decide) h.split h.name_nulFree h.rest_nulFree mem
  have hend := strfle_split h.split h.name_nulFree h.name_ne mem
  have hcut := store_cut name c mem'
  have hargs := h.args hbehind
  rw [hbehind] at hnext hend ⊢
  refine ⟨mem', _, hargs, ?_⟩
  rw [kshExec_eq, hnext, Option.bind_some, hend, Option.bind_some, hcut, Option.bind_some,
    kshDispatch_eq h.name_nulFree, hargs]

/-- Dispatch: the handler whose name is the line's is called once, with the rest of the line, and
`ksh_exec` returns `true` unless it is the handler of `panic`, which never returns.  Other names
are reported, and `ksh_exec` returns `false`. -/
theorem kshExec_dispatch (m : Machine) (t : Terminal) (name rest : List UInt8) (k : Nat)
    (mem : List UInt8) (h : CommandLine name k rest) :
    ∃ e, kshExec m t (name ++ (List.replicate k 32 ++ (rest ++ 0 :: mem))) = some e ∧
      (∀ cur ∈ kshHandlers, name = bytes cur.name →
        e.calls = [(cur.func, rest)] ∧ e.terminal = (cur.func.call m t (rest ++ [0])).1 ∧
          e.result = if cur.func = .panic then none else some true) ∧
      ((∀ cur ∈ kshHandlers, name ≠ bytes cur.name) →
        e.calls = [] ∧
          e.terminal = (bytes "Unknown command: " ++ (name ++ [10])).foldl
            (fun t' c => vgaPutc t' c t.textColor) t ∧
          e.result = some false) := by
  rcases kshExec_line h m t mem with ⟨mem', args, hargs, hexec⟩
  cases hfind : kshHandlers.find? (fun cur => name = bytes cur.name) with
  | none =>
      rw [hfind] at hexec
      have hother : ∀ cur ∈ kshHandlers, ¬ name = bytes cur.name := by
        simpa using List.find?_eq_none.1 hfind
      exact ⟨_, hexec, fun cur hcur hname => absurd hname (hother cur hcur),
        fun _ => ⟨rfl, kprintf_unknown t name, rfl⟩⟩
  | some found =>
      rw [hfind] at hexec
      -- The entry found is the only one of that name.
      have hmem : found ∈ kshHandlers := List.mem_of_find?_eq_some hfind
      have hfound : name = bytes found.name := by simpa using List.find?_some hfind
      have hcall : found.func.call m t args = found.func.call m t (rest ++ [0]) :=
        call_congr m t (hargs.trans (cText_nul h.rest_nulFree []).symm) found.func
      refine ⟨_, hexec, ?_, fun hother => absurd hfound (hother found hmem)⟩
      intro cur hcur hname
      have hsame : found = cur := kshHandlers_names found hmem cur hcur (hfound.symm.trans hname)
      subst hsame
      refine ⟨rfl, congrArg Prod.fst hcall, ?_⟩
      have hreturns := call_returns m t args found.func
      by_cases hpanic : found.func = .panic
      · have hno : ¬ (found.func.call m t args).2 = true := fun hyes => hreturns.1 hyes hpanic
        simp only [if_neg hno, if_pos hpanic]
      · simp only [if_pos (hreturns.2 hpanic), if_neg hpanic]

/-- The line `echo  a b`. -/
theorem kshExec_dispatch_echo :
    let m : Machine := ⟨0, fun _ => ⟨0, 0, 0, 0⟩, []⟩
    let t := started vga640 (fun _ => 0) 0x0F
    CommandLine (bytes "echo") 2 (bytes "a b") ∧
    ∃ e, kshExec m t (bytes "echo" ++ (List.replicate 2 32 ++ (bytes "a b" ++ 0 :: []))) =
        some e ∧
      (∀ cur ∈ kshHandlers, bytes "echo" = bytes cur.name →
        e.calls = [(cur.func, bytes "a b")] ∧
          e.terminal = (cur.func.call m t (bytes "a b" ++ [0])).1 ∧
          e.result = if cur.func = .panic then none else some true) ∧
      ((∀ cur ∈ kshHandlers, bytes "echo" ≠ bytes cur.name) →
        e.calls = [] ∧
          e.terminal = (bytes "Unknown command: " ++ (bytes "echo" ++ [10])).foldl
            (fun t' c => vgaPutc t' c t.textColor) t ∧
          e.result = some false) := by
  have hline : CommandLine (bytes "echo") 2 (bytes "a b") :=
    ⟨by decide, by unfold Lexeme; decide, by unfold NulFree; decide, by decide, by decide⟩
  exact ⟨hline, kshExec_dispatch _ _ _ _ 2 [] hline⟩

/-- The line `panic`: its handler is called, and `ksh_exec` does not return. -/
theorem panic_does_not_return :
    (kshExec ⟨0, fun _ => ⟨0, 0, 0, 0⟩, []⟩ (started vga640 (fun _ => 0) 0x0F)
        (cstr "panic")).map (fun e => (e.calls, e.result)) =
      some ([(.panic, [])], none) := by
  decide +kernel

end

end Feudos
