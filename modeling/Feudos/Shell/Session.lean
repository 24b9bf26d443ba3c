import Feudos.Shell.Output
import Feudos.Shell.Run
import Mathlib.Data.List.TakeWhile

/-!
# Sessions

What is on the screen while the shell runs, said without the terminal, the keyboard buffer and the
array `line`: the text since the last clear is the prompts, the lines typed behind them, and what
each line printed, in the order of the session.

- `session`          : the text after some lines were executed;
- `Pc.pending`       : the prompt and the characters typed behind it;
- `execLog`          : the lines that a run executes, each with the machine it was executed on;
- `session_on_screen`: in every run whose keys come in time, that is what the screen shows.

The machine (its `ticks` above all) may be another one at every action.
-/

namespace Feudos

open Vga GuardedRun

/-! ## The text of a session -/

/-- Characters with their colours, since the last clear. -/
abbrev ScreenText := List (UInt8 × UInt8)

def promptText : List UInt8 := bytes "ksh> "

/-- What an effect does to the text. -/
def Effect.extend (shown : ScreenText) : Effect → ScreenText
  | .prints text => shown ++ inColour defTextCol text
  | .clears => []
  | .panics text => shown ++ inColour panicColor (panicHead ++ text)

/-- The prompt, a line behind it, and the effect of the line. -/
def sessionLine (shown : ScreenText) (x : Machine × List UInt8) : ScreenText :=
  (commandEffect x.1 x.2).extend (shown ++ inColour defTextCol (promptText ++ (x.2 ++ [10])))

/-- The text after the lines of `log`, on a screen that showed `shown`. -/
def session (shown : ScreenText) (log : List (Machine × List UInt8)) : ScreenText :=
  log.foldl sessionLine shown

/-- The prompt and what was typed behind it, from when the prompt is printed to when the line is
executed. -/
def Pc.pending (unread : List UInt8) : Pc → ScreenText
  | .prompt | .running | .halted => []
  | .enter | .wait _ | .copy _ | .cut _ | .exec => inColour defTextCol (promptText ++ unread)

/-- The characters typed that are not in a line executed, given the lines executed and typed. -/
def unread (executed : List (List UInt8)) (x : List (List UInt8) × List UInt8) : List UInt8 :=
  (x.1.drop executed.length).flatMap (· ++ [10]) ++ x.2

@[simp] theorem unread_nothing (executed : List (List UInt8)) : unread executed (executed, []) = []
    := by
  simp [unread]

@[simp] theorem unread_line (executed : List (List UInt8)) (l : List UInt8) :
    unread executed (executed ++ [l], []) = l ++ [10] := by
  simp [unread]

/-- Every character typed is one more that is not read. -/
theorem unread_feed {executed : List (List UInt8)} {x : List (List UInt8) × List UInt8}
    (hfirst : executed <+: x.1) (c : UInt8) :
    unread executed (feed x c) = unread executed x ++ [c] := by
  have hle := hfirst.length_le
  by_cases hnewline : c = 10
  · subst hnewline
    simp [unread, feed, List.drop_append_of_le_length hle]
  · simp [unread, feed, hnewline]

/-! ## Runs on a changing machine -/

/-- An action on the machine that it finds. -/
def Shell.actIn (s : Shell) (a : Machine × Action) : Shell :=
  s.act a.1 a.2

/-- The line that an action hands to `ksh_exec`, if it does. -/
def Shell.hands (s : Shell) (a : Machine × Action) : List (Machine × List UInt8) :=
  if s.pc = .exec ∧ a.2 = .shell then [(a.1, s.line.toNul lineSize)] else []

/-- The lines that a run hands to `ksh_exec`. -/
def execLog : Shell → List (Machine × Action) → List (Machine × List UInt8)
  | _, [] => []
  | s, a :: acts => s.hands a ++ execLog (s.actIn a) acts

theorem hands_nil {s : Shell} (h : s.pc ≠ .exec) (a : Machine × Action) : s.hands a = [] :=
  if_neg (fun hboth => h hboth.1)

theorem hands_exec {s : Shell} (h : s.pc = .exec) (m : Machine) :
    s.hands (m, .shell) = [(m, s.line.toNul lineSize)] :=
  if_pos ⟨h, rfl⟩

/-- A step executes nothing, but for the one that calls `ksh_exec`. -/
theorem step_executed_same (m : Machine) {s : Shell} (h : s.pc ≠ .exec) :
    (s.step m).executed = s.executed := by
  cases hpc : s.pc with
  | prompt | enter | wait _ | copy _ | cut _ | running | halted =>
      simp only [Shell.step, hpc]
  | exec =>
      exact absurd hpc h

theorem step_executed_exec (m : Machine) {s : Shell} (h : s.pc = .exec) :
    (s.step m).executed = s.executed ++ [s.line.toNul lineSize] := by
  simp only [Shell.step, h]
  cases kshExec m s.kernel.terminal (s.line.slice 0 lineSize) with
  | none =>
      rfl
  | some e =>
      rfl

theorem actIn_executed (s : Shell) (a : Machine × Action) :
    (s.actIn a).executed = s.executed ++ (s.hands a).map Prod.snd := by
  rcases a with ⟨m, a⟩
  cases a with
  | key sc =>
      have hhands : s.hands (m, .key sc) = [] := if_neg (fun h => by cases h.2)
      rw [hhands, List.map_nil, List.append_nil]
      simp only [Shell.actIn, Shell.act]
      split <;> rfl
  | shell =>
      by_cases hpc : s.pc = .exec
      · rw [hands_exec hpc]
        exact step_executed_exec m hpc
      · rw [hands_nil hpc, List.map_nil, List.append_nil]
        exact step_executed_same m hpc

/-- The log has the lines executed. -/
theorem execLog_executed (s : Shell) (acts : List (Machine × Action)) :
    (acts.foldl Shell.actIn s).executed = s.executed ++ (execLog s acts).map Prod.snd := by
  induction acts generalizing s with
  | nil =>
      simp [execLog]
  | cons a acts ih =>
      rw [List.foldl_cons, ih, actIn_executed, execLog, List.map_append, List.append_assoc]

theorem actIn_halted {s : Shell} (h : s.pc = .halted) (a : Machine × Action) :
    s.actIn a = s := by
  rcases a with ⟨m, a⟩
  cases a with
  | key sc =>
      simp [Shell.actIn, Shell.act, h]
  | shell =>
      simp [Shell.actIn, Shell.act, Shell.step, h]

/-- Once halted, the shell stays as it is and executes nothing. -/
theorem run_halted {s : Shell} (h : s.pc = .halted) (acts : List (Machine × Action)) :
    acts.foldl Shell.actIn s = s ∧ execLog s acts = [] := by
  induction acts with
  | nil =>
      exact ⟨rfl, rfl⟩
  | cons a acts ih =>
      have hno : s.hands a = [] := by simp [Shell.hands, h]
      rw [List.foldl_cons, execLog, actIn_halted h a, hno]
      exact ih

/-! ## Effects on the screen -/

section

variable {f : Framebuffer} {t : Terminal} {shown : ScreenText} {e : Effect}

theorem Effect.apply_prints (hf : f.Usable) (h : Prints f t shown)
    (hcolour : t.textColor = defTextCol) (hplain : (8 : UInt8) ∉ e.text) :
    Prints f (e.apply t) (e.extend shown) := by
  cases e with
  | prints text =>
      rw [Effect.apply, hcolour]
      exact h.put hf (inColour_ne hplain)
  | clears =>
      exact clear_prints hf h.geom (by decide)
  | panics text =>
      have hhead : (8 : UInt8) ∉ panicHead := by decide
      have hput : Prints f (putText t (inColour panicColor panicHead)) _ :=
        h.put hf (inColour_ne hhead)
      have hfirst := Prints.recolour hput panicColor
      rw [Effect.extend, inColour_append, ← List.append_assoc]
      exact hfirst.put hf (inColour_ne hplain)

theorem Effect.apply_textColor (hreturns : e.returns = true) :
    (e.apply t).textColor = t.textColor := by
  cases e with
  | prints text =>
      exact putText_textColor t _
  | clears =>
      rfl
  | panics text =>
      cases hreturns

end

/-! ## The invariant -/

/-- A terminator in the array makes it a string. -/
theorem toNul_split {b : Buffer} {n i : Nat} (hi : i < n) (hnul : b.get i = 0) :
    NulFree (b.toNul n) ∧ ∃ mem, b.slice 0 n = b.toNul n ++ 0 :: mem := by
  have hmem : (0 : UInt8) ∈ b.slice 0 n := by
    refine List.mem_of_getElem? (i := i) ?_
    rw [Buffer.slice_getElem?, if_pos hi, Nat.zero_add, hnul]
  have hsplit := List.takeWhile_append_dropWhile (p := fun c : UInt8 => c ≠ 0) (l := b.slice 0 n)
  refine ⟨fun hzero => ?_, ?_⟩
  · simpa using List.mem_takeWhile_imp hzero
  · cases hdrop : (b.slice 0 n).dropWhile (fun c : UInt8 => c ≠ 0) with
    | nil =>
        have hall := List.dropWhile_eq_nil_iff.1 hdrop 0 hmem
        simp at hall
    | cons c mem =>
        have hc : c = 0 := by
          have hhead := List.head?_dropWhile_not (fun c : UInt8 => decide (c ≠ 0)) (b.slice 0 n)
          rw [hdrop] at hhead
          simpa using hhead
        rw [hdrop, hc] at hsplit
        exact ⟨mem, hsplit.symm⟩

/-- What holds along a run: the lines are in order, the line to execute is a string, and the screen
shows the session so far. -/
structure SessionInv (f : Framebuffer) (shown : ScreenText) (log : List (Machine × List UInt8))
    (x : List (List UInt8) × List UInt8) (s : Shell) : Prop where
  read : ReadInv s x
  terminated : s.pc = .exec → ∃ i, i < lineSize ∧ s.line.get i = 0
  colour : s.pc ≠ .halted → s.kernel.terminal.textColor = defTextCol
  prints : Prints f s.kernel.terminal (session shown log ++ s.pc.pending (unread s.executed x))

section

variable {f : Framebuffer} {shown : ScreenText} {log : List (Machine × List UInt8)}
  {x : List (List UInt8) × List UInt8} {s : Shell}

/-! ## Steps of the shell -/

/-- The prompt is printed. -/
theorem prompt_session (hf : f.Usable) (m : Machine) (hpc : s.pc = .prompt)
    (hlines : ∀ l ∈ x.1, l.length ≤ 126) (h : SessionInv f shown log x s) :
    SessionInv f shown log x (s.step m) := by
  have hread := step_inv m hlines h.read
  have hx := h.read
  have hcolour := h.colour (by rw [hpc]; decide)
  have hprints := h.prints
  simp only [ReadInv, hpc] at hx
  rw [hpc, hx, Pc.pending, List.append_nil] at hprints
  have hprompt : kprintf s.kernel.terminal (cstr "ksh> ") [] =
      putText s.kernel.terminal (inColour defTextCol promptText) := by
    rw [← hcolour]
    exact kprintf_pieces s.kernel.terminal [.text promptText] rfl
  have hplain : (8 : UInt8) ∉ promptText := by decide
  refine ⟨hread, ?_, ?_, ?_⟩
  · simp only [Shell.step, hpc]
    exact fun hexec => by cases hexec
  · simp only [Shell.step, hpc, hprompt, putText_textColor]
    exact fun _ => hcolour
  · -- Nothing has been typed behind it.
    simp only [Shell.step, hpc, hprompt, hx, unread_nothing, Pc.pending, List.append_nil]
    exact hprints.put hf (inColour_ne hplain)

/-- The newline is cut off, so the array has a terminator. -/
theorem cut_session (m : Machine) {len : Nat} (hpc : s.pc = .cut len)
    (hlines : ∀ l ∈ x.1, l.length ≤ 126) (h : SessionInv f shown log x s) :
    SessionInv f shown log x (s.step m) := by
  have hread := step_inv m hlines h.read
  have hx := h.read
  have hcolour := h.colour (by rw [hpc]; exact fun hEq => by cases hEq)
  have hprints := h.prints
  simp only [ReadInv, hpc] at hx
  rw [hpc, Pc.pending] at hprints
  rcases hx with ⟨l, rfl, -, -, rfl⟩
  have hfits : l.length ≤ 126 := hlines l (by simp)
  have hindex : u64 (l.length + 1 + 2 ^ 64 - 1) = l.length := by
    unfold u64
    omega
  refine ⟨hread, ?_, ?_, ?_⟩
  · simp only [Shell.step, hpc, hindex]
    refine fun _ => ⟨l.length, ?_, by simp⟩
    rw [lineSize]
    omega
  · simp only [Shell.step, hpc]
    exact fun _ => hcolour
  · simp only [Shell.step, hpc, Pc.pending]
    exact hprints

/-- The line has its effect. -/
theorem exec_session (hf : f.Usable) {m : Machine} (hm : m.Plain) (hpc : s.pc = .exec)
    (hlines : ∀ l ∈ x.1, l.length ≤ 126) (hclean : ∀ l ∈ x.1, (8 : UInt8) ∉ l)
    (h : SessionInv f shown log x s) :
    SessionInv f shown (log ++ s.hands (m, .shell)) x (s.step m) := by
  have hread := step_inv m hlines h.read
  have hx := h.read
  have hcolour := h.colour (by rw [hpc]; decide)
  have hprints := h.prints
  rcases h.terminated hpc with ⟨i, hi, hnul⟩
  rcases toNul_split hi hnul with ⟨hfree, mem, hslice⟩
  simp only [ReadInv, hpc] at hx
  rcases hx with ⟨l, hl, rfl⟩
  rw [hpc, unread_line, Pc.pending] at hprints
  rw [hl] at hfree hslice
  have hplain : (8 : UInt8) ∉ l := hclean l (by simp)
  rcases kshExec_effect m s.kernel.terminal l mem hfree with ⟨e, hexec, hterminal, hresult⟩
  have heffect := Effect.apply_prints hf hprints hcolour (commandEffect_plain hm hplain)
  rw [← hslice] at hexec
  rw [hands_exec hpc, hl]
  have hsession : session shown (log ++ [(m, l)]) = (commandEffect m l).extend
      (session shown log ++ inColour defTextCol (promptText ++ (l ++ [10]))) := by
    rw [session, List.foldl_append]
    rfl
  refine ⟨hread, ?_, ?_, ?_⟩
  · simp only [Shell.step, hpc, hexec]
    split <;> exact fun hEq => by cases hEq
  · simp only [Shell.step, hpc, hexec]
    intro hgoes
    have hreturns : (commandEffect m l).returns = true := by
      by_contra hno
      exact hgoes (if_pos (hresult.2 (by simpa using hno)))
    rw [hterminal, Effect.apply_textColor hreturns, hcolour]
  · have hpending : ∀ rest,
        (if e.result = none then Pc.halted else Pc.running).pending rest = [] := by
      intro rest
      split <;> rfl
    simp only [Shell.step, hpc, hexec, hpending, List.append_nil]
    rw [hterminal, hsession]
    exact heffect

/-- The other steps print nothing, and what is pending behind the prompt stays the same. -/
theorem silent_step (m : Machine) {s : Shell} (hprompt : s.pc ≠ .prompt)
    (hcut : ∀ len, s.pc ≠ .cut len) (hexec : s.pc ≠ .exec) :
    (s.step m).kernel.terminal = s.kernel.terminal ∧ (s.step m).executed = s.executed ∧
      (∀ rest, (s.step m).pc.pending rest = s.pc.pending rest) ∧ (s.step m).pc ≠ .exec ∧
      (s.pc = .halted → (s.step m).pc = .halted) := by
  cases hpc : s.pc with
  | prompt =>
      exact absurd hpc hprompt
  | cut len =>
      exact absurd hpc (hcut len)
  | exec =>
      exact absurd hpc hexec
  | wait startPos =>
      cases htest : (readlineTest s.kernel.kbdBuf startPos).1 <;>
        simp [Shell.step, hpc, htest, Pc.pending]
  | enter | copy startPos | running | halted =>
      simp [Shell.step, hpc, Pc.pending, readlineCopy]

theorem step_session (hf : f.Usable) {m : Machine} (hm : m.Plain)
    (hlines : ∀ l ∈ x.1, l.length ≤ 126) (hclean : ∀ l ∈ x.1, (8 : UInt8) ∉ l)
    (h : SessionInv f shown log x s) :
    SessionInv f shown (log ++ s.hands (m, .shell)) x (s.step m) := by
  by_cases hprompt : s.pc = .prompt
  · rw [hands_nil (by rw [hprompt]; decide), List.append_nil]
    exact prompt_session hf m hprompt hlines h
  · by_cases hcut : ∃ len, s.pc = .cut len
    · rcases hcut with ⟨len, hcut⟩
      rw [hands_nil (by rw [hcut]; exact fun hEq => by cases hEq), List.append_nil]
      exact cut_session m hcut hlines h
    · by_cases hexec : s.pc = .exec
      · exact exec_session hf hm hexec hlines hclean h
      · obtain ⟨hterminal, hexecuted, hpending, hpc, hhalted⟩ :=
          silent_step m hprompt (fun len hEq => hcut ⟨len, hEq⟩) hexec
        rw [hands_nil hexec, List.append_nil]
        refine ⟨step_inv m hlines h.read, fun hEq => absurd hEq hpc, ?_, ?_⟩
        · rw [hterminal]
          exact fun hgoes => h.colour (fun hEq => hgoes (hhalted hEq))
        · rw [hterminal, hexecuted, hpending]
          exact h.prints

/-! ## Keys -/

theorem Shell.listens_waits {s : Shell} (hhalted : s.pc ≠ .halted) (h : s.listens = true) :
    ∃ startPos, s.pc = .wait startPos := by
  unfold Shell.listens at h
  split at h
  · rename_i startPos hpc
    exact ⟨startPos, hpc⟩
  · rename_i hpc
    exact absurd hpc hhalted
  · cases h

/-- A key in time is echoed behind the prompt, if it types a character. -/
theorem key_session (hf : f.Usable) (m : Machine) {sc : UInt8} (hhalted : s.pc ≠ .halted)
    (hkey : ∀ c ∈ (decode s.kernel.shiftHeld sc).toList, Printable c ∨ c = 10)
    (hroom : s.kernel.kbdBuf.pos + (decode s.kernel.shiftHeld sc).toList.length ≤ kbdBufSize - 1)
    (hok : InTime s (.key sc)) (h : SessionInv f shown log x s) :
    SessionInv f shown log ((decode s.kernel.shiftHeld sc).toList.foldl feed x)
      (s.act m (.key sc)) := by
  have hread := (key_step m hhalted hkey hroom hok h.read).1
  have hcolour := h.colour hhalted
  have hprints := h.prints
  have hact : s.act m (.key sc) = { s with kernel := kbdHandleScancode s.kernel sc } :=
    if_neg hhalted
  have hkernel := kbdHandleScancode_eq s.kernel sc
  rw [hact] at hread ⊢
  cases hdecode : decode s.kernel.shiftHeld sc with
  | none =>
      rw [hdecode] at hread hkernel
      have hterminal : (kbdHandleScancode s.kernel sc).terminal = s.kernel.terminal := by
        rw [hkernel]
      refine ⟨hread, h.terminated, ?_, ?_⟩
      · rw [hterminal]
        exact h.colour
      · rw [hterminal]
        exact hprints
  | some c =>
      rw [hdecode] at hread hkernel hkey
      have hterminal : (kbdHandleScancode s.kernel sc).terminal =
          putText s.kernel.terminal (inColour defTextCol [c]) := by
        rw [hkernel, ← hcolour]
        rfl
      have hplain : (8 : UInt8) ∉ [c] := by
        rw [List.mem_singleton]
        rintro rfl
        rcases hkey 8 (List.mem_cons_self ..) with hprint | hnewline
        · exact hprint.ne (by decide) rfl
        · exact absurd hnewline (by decide)
      -- The key types a character, so `kbd_readline` is waiting behind the prompt.
      have hlistens : s.listens = true := by
        rcases hok with hnothing | hlistens
        · rw [hdecode] at hnothing
          cases hnothing
        · exact hlistens
      rcases Shell.listens_waits hhalted hlistens with ⟨startPos, hpc⟩
      have hunread : unread s.executed (feed x c) = unread s.executed x ++ [c] :=
        unread_feed h.read.executed_first c
      rw [hpc, Pc.pending] at hprints
      refine ⟨hread, ?_, ?_, ?_⟩
      · rw [hpc]
        exact fun hEq => by cases hEq
      · rw [hterminal, putText_textColor]
        exact fun _ => hcolour
      · simp only [Option.toList_some, List.foldl_cons, List.foldl_nil]
        rw [hterminal, hpc, Pc.pending, hunread, ← List.append_assoc, inColour_append,
          ← List.append_assoc]
        exact hprints.put hf (inColour_ne hplain)

/-! ## Runs -/

/-- Once the shell has halted, what is typed does not matter. -/
theorem SessionInv.halted (h : SessionInv f shown log x s) (hhalted : s.pc = .halted)
    (text : List UInt8) : SessionInv f shown log (text.foldl feed x) s := by
  refine ⟨?_, h.terminated, h.colour, ?_⟩
  · simp only [ReadInv, hhalted]
    exact h.read.executed_first.trans (feed_extends x text)
  · have hprints := h.prints
    rw [hhalted] at hprints ⊢
    exact hprints

/-- What the shell's steps and the keys in time keep, given the lines executed and the lines typed:
on the machines `ok`, and over lines that `Fits`. -/
structure KeptByTyping (ok : Machine → Prop) (Fits : List UInt8 → Prop)
    (I : List (Machine × List UInt8) → List (List UInt8) × List UInt8 → Shell → Prop) : Prop where
  read : ∀ {log x s}, I log x s → ReadInv s x
  step : ∀ {m log x s}, ok m → (∀ l ∈ x.1, Fits l) → I log x s →
    I (log ++ s.hands (m, .shell)) x (s.step m)
  key : ∀ {sc log x s} (m : Machine), s.pc ≠ .halted →
    (∀ c ∈ (decode s.kernel.shiftHeld sc).toList, Printable c ∨ c = 10) →
    s.kernel.kbdBuf.pos + (decode s.kernel.shiftHeld sc).toList.length ≤ kbdBufSize - 1 →
    InTime s (.key sc) → I log x s →
    I log ((decode s.kernel.shiftHeld sc).toList.foldl feed x) (s.act m (.key sc))
  halted : ∀ {log x s}, s.pc = .halted → I log x s →
    ∀ text : List UInt8, I log (text.foldl feed x) s

/-- It holds at the end of a run in which the keys come in time. -/
theorem KeptByTyping.run {ok : Machine → Prop} {Fits : List UInt8 → Prop}
    {I : List (Machine × List UInt8) → List (List UInt8) × List UInt8 → Shell → Prop}
    (hI : KeptByTyping ok Fits I) {acts : List (Machine × Action)} (h : I log x s)
    (hmachines : ∀ a ∈ acts, ok a.1)
    (hkeys : ∀ c ∈ typed s.kernel.shiftHeld (keysOf (acts.map Prod.snd)), Printable c ∨ c = 10)
    (hlines : ∀ l ∈ ((typed s.kernel.shiftHeld (keysOf (acts.map Prod.snd))).foldl feed x).1,
      Fits l)
    (htotal : s.kernel.kbdBuf.pos +
      (typed s.kernel.shiftHeld (keysOf (acts.map Prod.snd))).length < kbdBufSize - 1)
    (hok : Guarded Shell.actIn (fun s a => InTime s a.2) s acts) :
    I (log ++ execLog s acts)
      ((typed s.kernel.shiftHeld (keysOf (acts.map Prod.snd))).foldl feed x)
      (acts.foldl Shell.actIn s) := by
  induction acts generalizing s x log with
  | nil =>
      rw [execLog, List.append_nil]
      exact h
  | cons a acts ih =>
      by_cases hhalted : s.pc = .halted
      · rw [(run_halted hhalted (a :: acts)).1, (run_halted hhalted (a :: acts)).2, List.append_nil]
        exact hI.halted hhalted h _
      · rcases a with ⟨m, a⟩
        have hm := hmachines (m, a) (List.mem_cons_self ..)
        have hrest : ∀ a ∈ acts, ok a.1 := fun a ha => hmachines a (List.mem_cons_of_mem _ ha)
        rw [List.foldl_cons, execLog, ← List.append_assoc]
        cases a with
        | shell =>
            simp only [List.map_cons, keysOf] at hkeys hlines htotal ⊢
            have hstep := hI.step hm (fun l hl => hlines l ((feed_extends x _).subset hl)) h
            rw [← step_shiftHeld m s] at hkeys hlines htotal ⊢
            rw [← step_pos m s] at htotal
            exact ih hstep hrest hkeys hlines htotal hok.2
        | key sc =>
            -- The characters of this key are fed now, those of the later keys by `ih`.
            simp only [List.map_cons, keysOf, typed] at hkeys hlines htotal ⊢
            rw [List.length_append] at htotal
            rw [List.foldl_append] at hlines ⊢
            have hnow : ∀ c ∈ (decode s.kernel.shiftHeld sc).toList, Printable c ∨ c = 10 :=
              fun c hc => hkeys c (List.mem_append_left _ hc)
            have hstep := hI.key m hhalted hnow (by omega) hok.1 h
            have hpos := (key_step m hhalted hnow (by omega) hok.1 (hI.read h)).2
            have hnone : s.hands (m, .key sc) = [] := if_neg (fun hboth => by cases hboth.2)
            have hlater : ∀ c ∈ typed (shiftAfter s.kernel.shiftHeld sc)
                (keysOf (acts.map Prod.snd)), Printable c ∨ c = 10 :=
              fun c hc => hkeys c (List.mem_append_right _ hc)
            rw [hnone, List.append_nil]
            have hact : s.actIn (m, .key sc) = s.act m (.key sc) := rfl
            rw [← act_key_shiftHeld m sc hhalted] at hlater hlines htotal ⊢
            exact ih hstep hrest hlater hlines (by rw [hact, hpos]; omega) hok.2

theorem session_kept (hf : f.Usable) :
    KeptByTyping Machine.Plain (fun l => l.length ≤ 126 ∧ (8 : UInt8) ∉ l)
      (SessionInv f shown) where
  read := SessionInv.read
  step := fun hm hlines h =>
    step_session hf hm (fun l hl => (hlines l hl).1) (fun l hl => (hlines l hl).2) h
  key := fun m hhalted hkey hroom hok h => key_session hf m hhalted hkey hroom hok h
  halted := fun hhalted h text => h.halted hhalted text

theorem feed_clean {text : List UInt8} (hx : ∀ l ∈ x.1, (8 : UInt8) ∉ l)
    (hbegun : (8 : UInt8) ∉ x.2) (htext : (8 : UInt8) ∉ text) :
    ∀ l ∈ (text.foldl feed x).1, (8 : UInt8) ∉ l := by
  induction text generalizing x with
  | nil =>
      exact hx
  | cons c text ih =>
      rw [List.mem_cons, not_or] at htext
      refine ih ?_ ?_ htext.2
      · unfold feed
        split
        · intro l hl
          rcases List.mem_append.1 hl with hold | hnew
          · exact hx l hold
          · rw [List.mem_singleton.1 hnew]
            exact hbegun
        · exact hx
      · unfold feed
        split
        · exact List.not_mem_nil
        · simpa [hbegun] using htext.1

/-- In every run of `ksh_run` on a terminal that shows `shown`, over lines of at most 126 printable
characters and fewer than 2047 in all, in which the keys come in time: the lines executed are the
first of the lines typed, and the screen shows the session over them. -/
theorem session_on_screen (past : Nat → UInt8) (terminal : Terminal) (line : Buffer)
    (acts : List (Machine × Action)) (hf : f.Usable) (hterminal : Prints f terminal shown)
    (hcolour : terminal.textColor = defTextCol) (hmachines : ∀ a ∈ acts, a.1.Plain)
    (hkeys : ∀ c ∈ typed false (keysOf (acts.map Prod.snd)), Printable c ∨ c = 10)
    (hlines : ∀ l ∈ typedLines (typed false (keysOf (acts.map Prod.snd))), l.length ≤ 126)
    (htotal : (typed false (keysOf (acts.map Prod.snd))).length < 2047)
    (hok : Guarded Shell.actIn (fun s a => InTime s a.2) (Shell.start past terminal line) acts) :
    let s := acts.foldl Shell.actIn (Shell.start past terminal line)
    let log := execLog (Shell.start past terminal line) acts
    let x := (typed false (keysOf (acts.map Prod.snd))).foldl feed ([], [])
    s.executed = log.map Prod.snd ∧ s.executed <+: x.1 ∧
      Displays f s.kernel.terminal (session shown log ++ s.pc.pending (unread s.executed x)) := by
  have hstart : SessionInv f shown [] ([], []) (Shell.start past terminal line) := by
    refine ⟨rfl, (fun hEq => by cases hEq), fun _ => hcolour, ?_⟩
    rw [session, List.foldl_nil, Shell.start, Pc.pending, List.append_nil]
    exact hterminal
  have hplain : (8 : UInt8) ∉ typed false (keysOf (acts.map Prod.snd)) := by
    intro hmem
    rcases hkeys 8 hmem with hprint | hnewline
    · exact hprint.ne (by decide) rfl
    · exact absurd hnewline (by decide)
  have hclean := feed_clean (x := ([], [])) (fun l hl => absurd hl List.not_mem_nil)
    List.not_mem_nil hplain
  have hpos : (Shell.start past terminal line).kernel.kbdBuf.pos = 0 := rfl
  have hrun := (session_kept hf).run hstart hmachines hkeys
    (fun l hl => ⟨hlines l hl, hclean l hl⟩) (by rw [hpos, Nat.zero_add]; exact htotal) hok
  exact ⟨execLog_executed _ acts, hrun.read.executed_first, hrun.prints.displays hf⟩

end

end Feudos
