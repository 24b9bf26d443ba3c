import Feudos.Shell.Halt

/-!
# The calls of the shell's output

`Shell.step` prints in one step what the kernel prints by one call after another.

- `Effect.calls` : the calls of an effect, in the kernel's order;
- `flush_calls`  : together they are the effect;
- `Shell.effect` : what a step of the shell does to the terminal;
- `step_paint`   : the rest of the step does not depend on the terminal.
-/

namespace Feudos

open Vga GuardedRun

/-! ## Calls -/

/-- `vga_putc` in the current colour. -/
def putChar (c : UInt8) (t : Terminal) : Terminal :=
  vgaPutc t c t.textColor

/-- `kernel_panic` sets its colour first, and prints in it. -/
def Effect.calls : Effect → List (Terminal → Terminal)
  | .prints text => text.map putChar
  | .clears => [(vgaMoveCursor · 0 0), (vgaClearScreen · defTextCol)]
  | .panics text => (vgaChangeTextColor · panicColor) :: (panicHead ++ text).map putChar

/-- The terminal after some calls. -/
def flush (calls : List (Terminal → Terminal)) (t : Terminal) : Terminal :=
  calls.foldl (fun t call => call t) t

theorem flush_putChar (text : List UInt8) (t : Terminal) :
    flush (text.map putChar) t = putText t (inColour t.textColor text) := by
  induction text generalizing t with
  | nil =>
      rfl
  | cons c text ih =>
      have hcolour : (putChar c t).textColor = t.textColor := vgaPutc_textColor t c _
      calc
        flush ((c :: text).map putChar) t
            = flush (text.map putChar) (putChar c t) := rfl
        _ = putText (putChar c t) (inColour t.textColor text) := by rw [ih, hcolour]
        _ = putText t (inColour t.textColor (c :: text)) := rfl

/-- The calls of an effect are the effect. -/
theorem flush_calls (e : Effect) (t : Terminal) : flush e.calls t = e.apply t := by
  cases e with
  | prints text =>
      exact flush_putChar text t
  | clears =>
      rfl
  | panics text =>
      have hcolour : (vgaChangeTextColor t panicColor).textColor = panicColor := rfl
      calc
        flush (Effect.panics text).calls t
            = flush ((panicHead ++ text).map putChar) (vgaChangeTextColor t panicColor) := by
              rw [Effect.calls, flush, List.foldl_cons, flush]
        _ = putText (putText (vgaChangeTextColor t panicColor) (inColour panicColor panicHead))
              (inColour panicColor text) := by
              rw [flush_putChar, hcolour, inColour_append, putText_append]
        _ = (Effect.panics text).apply t := by rw [putText_recolour, Effect.apply]

/-! ## Steps -/

/-- What the next step does to the terminal. -/
def Shell.effect (m : Machine) (s : Shell) : Effect :=
  match s.pc with
  | .prompt => .prints promptText
  | .exec => commandEffect m (s.line.toNul lineSize)
  | _ => .prints []

/-- The shell with another terminal. -/
def Shell.paint (s : Shell) (t : Terminal) : Shell :=
  { s with kernel := { s.kernel with terminal := t } }

/-- Only `panic` does not return, on every machine. -/
theorem handler_panics (m m' : Machine) (args : List UInt8) (h : Handler)
    (hhalts : (h.effect m args).returns = false) :
    ∃ text, h.effect m' args = .panics text ∧ h.effect m args = .panics text := by
  cases h with
  | panic =>
      exact ⟨_, rfl, rfl⟩
  | uptime | cpuid | clear | uname | echo | help =>
      cases hhalts

theorem commandEffect_panics (m m' : Machine) (line : List UInt8)
    (hhalts : (commandEffect m line).returns = false) :
    ∃ text, commandEffect m' line = .panics text ∧ commandEffect m line = .panics text := by
  unfold commandEffect at hhalts ⊢
  split
  · next cur hfind =>
      rw [hfind] at hhalts
      exact handler_panics m m' _ cur.func hhalts
  · next hfind =>
      rw [hfind] at hhalts
      cases hhalts

/-- A step that does not return is a panic, with one text on every machine. -/
theorem effect_panics (m : Machine) {s : Shell} (hhalts : (s.effect m).returns = false) :
    s.pc = .exec ∧ ∃ text, ∀ m', s.effect m' = .panics text := by
  unfold Shell.effect at hhalts ⊢
  split at hhalts
  · cases hhalts
  · next hpc =>
      rw [hpc]
      rcases commandEffect_panics m m _ hhalts with ⟨text, heffect, -⟩
      refine ⟨rfl, text, fun m' => ?_⟩
      rcases commandEffect_panics m m' _ hhalts with ⟨text', heffect', hsame⟩
      rw [hsame] at heffect
      exact heffect'.trans heffect
  · cases hhalts

/-- The line that `ksh_exec` leaves does not depend on the terminal. -/
theorem kshExec_cmd (m m' : Machine) (t t' : Terminal) (cmd : List UInt8) :
    (kshExec m t cmd).map Exec.cmd = (kshExec m' t' cmd).map Exec.cmd := by
  have hdispatch : ∀ (m : Machine) (t : Terminal) (argsStart : Option Nat) (cmd : List UInt8),
      (kshDispatch m t argsStart cmd).map Exec.cmd =
        (findCmd cmd kshHandlers).map (fun _ => cmd) := by
    intro m t argsStart cmd
    rw [kshDispatch]
    cases findCmd cmd kshHandlers with
    | none =>
        rfl
    | some found =>
        cases found <;> rfl
  simp only [kshExec_eq, Option.map_bind, Function.comp_def, hdispatch]

theorem exec_paint (m : Machine) {s : Shell} (hpc : s.pc = .exec) (h : Terminated s)
    (t : Terminal) : (s.paint t).step m = (s.step m).paint ((s.effect m).apply t) := by
  rcases exec_effect m hpc h s.kernel.terminal with ⟨e, hexec, -, hresult⟩
  rcases exec_effect m hpc h t with ⟨e', hexec', hterminal', hresult'⟩
  have hcmd := kshExec_cmd m m s.kernel.terminal t (s.line.slice 0 lineSize)
  rw [hexec, hexec', Option.map_some, Option.map_some, Option.some.injEq] at hcmd
  simp only [Shell.step, Shell.paint, Shell.effect, hpc, hexec, hexec', hcmd, hresult, hresult',
    hterminal']

/-- A step on another terminal has its effect there, and leaves the rest as it does. -/
theorem step_paint (m : Machine) {s : Shell} (h : Terminated s) (t : Terminal) :
    (s.paint t).step m = (s.step m).paint ((s.effect m).apply t) := by
  cases hpc : s.pc with
  | prompt =>
      have hprompt : kprintf t (cstr "ksh> ") [] = putText t (inColour t.textColor promptText) :=
        kprintf_pieces t [.text promptText] rfl
      simp only [Shell.step, Shell.paint, Shell.effect, hpc, Effect.apply, hprompt]
  | enter | wait _ | copy _ | cut _ | running | halted =>
      simp only [Shell.step, Shell.paint, Shell.effect, hpc]
      rfl
  | exec =>
      exact exec_paint m hpc h t

theorem step_terminal (m : Machine) {s : Shell} (h : Terminated s) :
    (s.step m).kernel.terminal = (s.effect m).apply s.kernel.terminal := by
  have hpaint := step_paint m h s.kernel.terminal
  exact congrArg (fun s : Shell => s.kernel.terminal) hpaint

/-! ## When the shell may listen -/

/-- Whether `kbd_readline` waits, or all is over. -/
def Pc.waits : Pc → Bool
  | .wait _ | .halted => true
  | _ => false

theorem waits_of_listens {s : Shell} (h : s.listens = true) : s.pc.waits = true := by
  unfold Shell.listens at h
  split at h
  · next hpc =>
      rw [hpc]
      rfl
  · next hpc =>
      rw [hpc]
      rfl
  · cases h

/-- The shell does not wait behind a step that prints, unless the kernel halts. -/
theorem step_busy (m : Machine) {s : Shell} (h : Terminated s)
    (hreturns : (s.effect m).returns = true) (hcalls : (s.effect m).calls ≠ []) :
    (s.step m).pc.waits = false := by
  cases hpc : s.pc with
  | prompt =>
      simp only [Shell.step, hpc]
      rfl
  | enter | wait _ | copy _ | cut _ | running | halted =>
      simp only [Shell.effect, hpc, Effect.calls, List.map_nil, ne_eq, not_true] at hcalls
  | exec =>
      rcases exec_effect m hpc h s.kernel.terminal with ⟨e, hexec, -, hresult⟩
      simp only [Shell.effect, hpc] at hreturns
      simp only [Shell.step, hpc, hexec, hresult, hreturns]
      rfl

end Feudos
