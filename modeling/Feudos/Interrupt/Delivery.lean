import Feudos.Interrupt.EarlyKeys

/-!
# Delivery

What becomes of the keys and of the timer's requests in every run from `kernel_main` on, with the
devices, the acknowledge cycles and the handlers in any order.

- `keys_in_order`    : every byte is handled once, in order, and the processor is asked while one
  waits;
- `interrupts_safe`  : the processor and the controllers agree;
- `keys_not_starved` : how many interrupts can be handled before the bytes that wait;
- `keys_drained`     : when the devices stay quiet, every byte is handled;
- `keyboard_dead_iff`: when the keyboard is not heard at all.
-/

namespace Feudos
namespace Interrupt

open Devices Vga GuardedRun WordStack

/-! ## Counting -/

/-- Whether an action is a handler. -/
def System.handles (s : System) : SysAction → Bool
  | .handle _ _ =>
      match s.mode with
      | .handling _ => true
      | _ => false
  | _ => false

/-- How many interrupts are handled in a run. -/
def handledIn : System → List SysAction → Nat
  | _, [] => 0
  | s, a :: acts =>
      (s.handles a).toNat + (s.act a).elim 0 (fun s' => handledIn s' acts)

def SysAction.asksTimer : SysAction → Bool
  | .raise l => l = .master 0
  | _ => false

/-- How often the timer raises its line. -/
def timerRequests (acts : List SysAction) : Nat :=
  acts.countP SysAction.asksTimer

/-- The timer's requests that are not handled yet. -/
def System.timerDue (s : System) : Nat :=
  (decide ((0 : Fin 8) ∈ s.platform.pics.master.irr)).toNat +
    (decide (s.mode = .handling 0x20)).toNat

/-- No interrupt of a lower priority than the keyboard's is under way. -/
def System.Urgent (s : System) : Prop :=
  s.mode = .running ∨ s.mode = .acknowledging ∨ s.mode = .handling 0x20 ∨ s.mode = .handling 0x21

/-- The master gives a line to the processor. -/
def System.serve (s : System) (j : Fin 8) : System :=
  { s with
    platform :=
      { s.platform with
        pics := { s.platform.pics with master := s.platform.pics.master.serve j } }
    mode := .handling (0x20 + UInt8.ofNat j) }

section

variable {s s' : System} {alive : Bool}

/-- While a byte waits, its line is requested, unless its handler is about to run. -/
theorem requested_of_waiting (h : s.Sound true) (hqueue : s.platform.keyboard.queue ≠ [])
    (hmode : s.mode ≠ .handling 0x21) : (1 : Fin 8) ∈ s.platform.pics.master.irr := by
  have hwaits := h.keyWaits.2
  rw [if_neg hmode] at hwaits
  exact hwaits.2 ⟨rfl, hqueue⟩

/-- The processor is asked while a byte waits. -/
theorem accepts_of_waiting (h : s.Sound true) (hmask : masked s.platform.pics (.master 1) = false)
    (hqueue : s.platform.keyboard.queue ≠ []) (hmode : s.mode = .running)
    (hpc : s.shell.pc ≠ .halted) : s.accepts = true := by
  have hserving := h.serving
  rw [hmode] at hserving
  have hrequested := requested_of_waiting h hqueue (by rw [hmode]; exact fun hEq => by cases hEq)
  simp only [System.accepts, decide_eq_true_eq]
  exact ⟨hmode, hpc, Pics.int_of_request hserving hrequested hmask⟩

/-- The first acknowledge cycle gives the timer's line or the keyboard's. -/
theorem acknowledge_urgent (h : s.Sound true)
    (hmask : masked s.platform.pics (.master 1) = false)
    (hqueue : s.platform.keyboard.queue ≠ []) (hmode : s.mode = .acknowledging) :
    ∃ j : Fin 8, j ≤ 1 ∧ j ∈ s.platform.pics.master.irr ∧
      s.act .acknowledge = some (s.serve j) := by
  have hserving := h.serving
  rw [hmode] at hserving
  have hrequested := requested_of_waiting h hqueue (by rw [hmode]; exact fun hEq => by cases hEq)
  obtain ⟨j, hle, hmem, hinta⟩ :=
    Pics.inta_of_request h.wired hserving hrequested (by decide) hmask
  refine ⟨j, hle, hmem, ?_⟩
  rw [System.act, hmode]
  simp only [hinta, Option.bind_eq_bind, Option.bind_some, System.serve]
  simp only [Pics.vector, Chip.serve, h.wired.master_base]

/-! ## What is due -/

theorem timerDue_le (hmode : s'.mode = s.mode)
    (hirr : (0 : Fin 8) ∈ s'.platform.pics.master.irr → (0 : Fin 8) ∈ s.platform.pics.master.irr) :
    s'.timerDue ≤ s.timerDue := by
  unfold System.timerDue
  rw [hmode]
  have hle := Bool.toNat_le (decide ((0 : Fin 8) ∈ s'.platform.pics.master.irr))
  by_cases hold : (0 : Fin 8) ∈ s.platform.pics.master.irr
  · rw [decide_eq_true hold, Bool.toNat_true]
    omega
  · rw [decide_eq_false (fun hnew => hold (hirr hnew)), decide_eq_false hold]

theorem raise_due (s : System) (l : Line) :
    (s.device l Pics.raise).timerDue ≤ timerRequests [.raise l] + s.timerDue := by
  unfold System.device
  split
  · exact Nat.le_add_left _ _
  · by_cases h0 : l = .master 0
    · subst h0
      have hnew := Bool.toNat_le
        (decide ((0 : Fin 8) ∈ (s.platform.pics.raise (.master 0)).master.irr))
      have hone : timerRequests [.raise (.master 0)] = 1 := rfl
      simp only [System.timerDue, hone]
      omega
    · have hle : ({ s with
          platform := { s.platform with pics := s.platform.pics.raise l } } : System).timerDue ≤
          s.timerDue :=
        timerDue_le rfl (fun hmem =>
          (Pics.mem_raise_irr.1 hmem).resolve_right (fun hboth => h0 hboth.1))
      exact Nat.le_trans hle (Nat.le_add_left _ _)

theorem lower_due (s : System) (l : Line) : (s.device l Pics.lower).timerDue ≤ s.timerDue := by
  unfold System.device
  split
  · exact Nat.le_refl _
  · exact timerDue_le rfl (fun hmem => (Pics.mem_lower_irr.1 hmem).1)

theorem press_due (s : System) (b : UInt8) :
    ({ s with platform := s.platform.press b } : System).timerDue ≤ s.timerDue := by
  refine timerDue_le rfl (fun hmem => ?_)
  unfold Platform.press at hmem
  dsimp only at hmem
  split at hmem
  · exact (Pics.mem_raise_irr.1 hmem).resolve_right (fun hboth => by cases hboth.1)
  · exact hmem

theorem device_urgent (h : s.Urgent) (l : Line) (f : Pics → Line → Pics) :
    (s.device l f).Urgent := by
  unfold System.device
  split
  · exact h
  · exact h

/-- Reading a byte does not touch the timer's line. -/
theorem readKeyboard_timer (p : Platform) :
    (0 : Fin 8) ∈ p.readKeyboard.2.pics.master.irr ↔ (0 : Fin 8) ∈ p.pics.master.irr := by
  unfold Platform.readKeyboard
  split
  · exact Iff.rfl
  · dsimp only
    split
    · simp [Pics.mem_lower_irr, Platform.keyboardLine]
    · simp [Pics.mem_raise_irr, Pics.mem_lower_irr, Platform.keyboardLine]

/-- The handler of the timer's line or of the keyboard's: what is due is one less, or one byte is
handled. -/
theorem handle_urgent (h : s.Sound true) {j : Fin 8} (hj : j ≤ 1)
    (hmode : s.mode = .handling (0x20 + UInt8.ofNat j)) (x : Interrupted) (cr2 : UInt64) :
    ∃ s', s.act (.handle x cr2) = some s' ∧ s'.mode = .running ∧ s'.shell.pc = s.shell.pc ∧
      1 + s'.timerDue ≤ (keysIn (s.event (.handle x cr2))).length + s.timerDue := by
  have hsmall : j = 0 ∨ j = 1 := by omega
  rcases handle_sound h hmode x cr2 with ⟨l, hvector, hact, -, -⟩
  have hl : l = .master j := by
    refine (vector_eq_iff h.wired l (.master j) ?_).1 hvector.symm
    rcases hsmall with rfl | rfl <;> rfl
  subst hl
  refine ⟨_, hact, rfl, rfl, ?_⟩
  rcases hsmall with rfl | rfl
  · -- The timer: its line is no longer in the hands of the processor.
    have hirr : ((lineHandler (.master 0) s.core).eoi (.master 0)).ports.pics.master.irr =
        s.platform.pics.master.irr := rfl
    have hdone : ¬ CpuMode.running = .handling 0x20 := fun hEq => by cases hEq
    have hnow : s.mode = .handling 0x20 := hmode
    simp only [System.timerDue, System.leave, hirr, decide_eq_true hnow, decide_eq_false hdone,
      Bool.toNat_true, Bool.toNat_false]
    omega
  · have hone : (keysIn (s.event (.handle x cr2))).length = 1 := by
      have hnow : s.mode = .handling 0x21 := hmode
      have hnot : ¬ (0x21 : UInt8) = 0x20 := by decide
      simp only [System.event, hnow, CpuMode.handling.injEq, if_neg hnot, if_true, keysIn,
        List.length_cons, List.length_nil]
    have hirr := readKeyboard_timer s.platform
    have hports : ((lineHandler (.master 1) s.core).eoi (.master 1)).ports.pics.master.irr =
        s.platform.readKeyboard.2.pics.master.irr := rfl
    have hdone : ¬ CpuMode.running = .handling 0x20 := fun hEq => by cases hEq
    simp only [System.timerDue, System.leave, hports, hirr, decide_eq_false hdone,
      Bool.toNat_false, hone]
    omega

/-- Giving the line to the processor does not change what is due. -/
theorem serve_due (hmode : s.mode = .acknowledging) {j : Fin 8} (hj : j ≤ 1)
    (hmem : j ∈ s.platform.pics.master.irr) :
    (s.serve j).Urgent ∧ (s.serve j).timerDue ≤ s.timerDue := by
  have hsmall : j = 0 ∨ j = 1 := by omega
  have hnot : ¬ CpuMode.acknowledging = .handling 0x20 := fun hEq => by cases hEq
  rcases hsmall with rfl | rfl
  · have hnow : (s.serve 0).mode = .handling 0x20 := rfl
    have hgone : (0 : Fin 8) ∉ (s.serve 0).platform.pics.master.irr := Finset.notMem_erase _ _
    refine ⟨Or.inr (Or.inr (Or.inl rfl)), ?_⟩
    simp only [System.timerDue, hmode, decide_eq_false hgone, decide_eq_true hnow,
      decide_eq_true hmem, decide_eq_false hnot, Bool.toNat_true, Bool.toNat_false]
    omega
  · have hnow : ¬ (s.serve 1).mode = .handling 0x20 := by
      have hne : ¬ CpuMode.handling 0x21 = .handling 0x20 := by decide
      exact hne
    have hsame : (0 : Fin 8) ∈ (s.serve 1).platform.pics.master.irr ↔
        (0 : Fin 8) ∈ s.platform.pics.master.irr := by
      simp [System.serve, Chip.serve]
    refine ⟨Or.inr (Or.inr (Or.inr rfl)), ?_⟩
    simp only [System.timerDue, hmode, hsame, decide_eq_false hnow, decide_eq_false hnot]
    omega

/-- One action while a byte waits: what is handled was due, or is a byte. -/
theorem urgent_step (h : s.Sound true) (hmask : masked s.platform.pics (.master 1) = false)
    (hqueue : s.platform.keyboard.queue ≠ []) (hurgent : s.Urgent) {a : SysAction}
    (hact : s.act a = some s') :
    s'.Urgent ∧ (s.handles a).toNat + s'.timerDue ≤
      (keysIn (s.event a)).length + timerRequests [a] + s.timerDue := by
  cases a with
  | raise l =>
      rcases Option.some.inj hact with rfl
      have hdue := raise_due s l
      refine ⟨device_urgent hurgent l _, ?_⟩
      simp only [System.handles, Bool.toNat_false, System.event, keysIn, List.length_nil]
      omega
  | lower l =>
      rcases Option.some.inj hact with rfl
      have hdue := lower_due s l
      refine ⟨device_urgent hurgent l _, ?_⟩
      simp only [System.handles, Bool.toNat_false]
      omega
  | press b =>
      rcases Option.some.inj hact with rfl
      have hdue := press_due s b
      refine ⟨hurgent, ?_⟩
      simp only [System.handles, Bool.toNat_false]
      omega
  | accept =>
      rcases Option.some.inj hact with rfl
      split
      · next haccepts =>
          simp only [System.accepts, decide_eq_true_eq] at haccepts
          have hnot : ¬ CpuMode.acknowledging = .handling 0x20 := fun hEq => by cases hEq
          refine ⟨Or.inr (Or.inl rfl), ?_⟩
          simp only [System.handles, Bool.toNat_false, System.timerDue, decide_eq_false hnot]
          omega
      · refine ⟨hurgent, ?_⟩
        simp only [System.handles, Bool.toNat_false]
        omega
  | acknowledge =>
      have hzero : (s.handles .acknowledge).toNat = 0 := rfl
      by_cases hmode : s.mode = .acknowledging
      · rcases acknowledge_urgent h hmask hqueue hmode with ⟨j, hle, hmem, hcycle⟩
        rw [hcycle] at hact
        rcases Option.some.inj hact with rfl
        rcases serve_due hmode hle hmem with ⟨hnext, hdue⟩
        exact ⟨hnext, by omega⟩
      · -- There is no second cycle, since the slave is not asked.
        have hsame : s.act .acknowledge = some s := by
          rw [System.act]
          rcases hurgent with hEq | hEq | hEq | hEq
          · rw [hEq]
          · exact absurd hEq hmode
          · rw [hEq]
          · rw [hEq]
        rw [hsame] at hact
        rcases Option.some.inj hact with rfl
        exact ⟨hurgent, by omega⟩
  | handle x cr2 =>
      by_cases hmode : ∃ j : Fin 8, j ≤ 1 ∧ s.mode = .handling (0x20 + UInt8.ofNat j)
      · rcases hmode with ⟨j, hj, hmode⟩
        rcases handle_urgent h hj hmode x cr2 with ⟨s₁, hact₁, hrunning, -, hdue⟩
        rw [hact₁] at hact
        rcases Option.some.inj hact with rfl
        have hone : (s.handles (.handle x cr2)).toNat = 1 := by
          rw [System.handles, hmode]
          rfl
        exact ⟨Or.inl hrunning, by omega⟩
      · have hidle : s.mode = .running ∨ s.mode = .acknowledging := by
          rcases hurgent with hEq | hEq | hEq | hEq
          · exact Or.inl hEq
          · exact Or.inr hEq
          · exact absurd ⟨0, by decide, hEq⟩ hmode
          · exact absurd ⟨1, by decide, hEq⟩ hmode
        have hsame : s.act (.handle x cr2) = some s ∧
            (s.handles (.handle x cr2)).toNat = 0 := by
          rcases hidle with hEq | hEq
          · simp [System.act, System.handles, hEq]
          · simp [System.act, System.handles, hEq]
        rw [hsame.1] at hact
        rcases Option.some.inj hact with rfl
        exact ⟨hurgent, by omega⟩
  | shell stack =>
      rcases Option.some.inj hact with rfl
      have hzero : (s.handles (.shell stack)).toNat = 0 := rfl
      split
      · have hdue := @timerDue_le s
          { s with shell := s.shell.step { s.machine with stack := stack } }
          rfl id
        exact ⟨hurgent, by omega⟩
      · exact ⟨hurgent, by omega⟩

/-! ## Runs -/

theorem masked_of_config {p p' : Pics} (h : p'.config = p.config) (l : Line) :
    masked p' l = masked p l := by
  simp only [Pics.config, Chip.config, Prod.mk.injEq] at h
  cases l with
  | master i =>
      rw [masked, masked, h.1.1]
  | slave i =>
      rw [masked, masked, h.2.1]

theorem timerRequests_cons (a : SysAction) (acts : List SysAction) :
    timerRequests (a :: acts) = timerRequests [a] + timerRequests acts := by
  rw [timerRequests, timerRequests, timerRequests, List.countP_cons, List.countP_cons,
    List.countP_nil, Nat.zero_add, Nat.add_comm]

theorem eventsOf_cons {a : SysAction} (hact : s.act a = some s') (acts : List SysAction) :
    eventsOf s (a :: acts) = s.event a ++ eventsOf s' acts := by
  rw [eventsOf, hact]
  rfl

theorem handledIn_cons {a : SysAction} (hact : s.act a = some s') (acts : List SysAction) :
    handledIn s (a :: acts) = (s.handles a).toNat + handledIn s' acts := by
  rw [handledIn, hact]
  rfl

/-- Until the bytes that wait now are handled, every interrupt handled is one of them or was a
request of the timer. -/
theorem urgent_run (h : s.Sound true) (hmask : masked s.platform.pics (.master 1) = false)
    (hurgent : s.Urgent) (acts : List SysAction)
    (hwaiting : (keysIn (eventsOf s acts)).length < s.platform.keyboard.queue.length) :
    handledIn s acts ≤ (keysIn (eventsOf s acts)).length + timerRequests acts + s.timerDue := by
  induction acts generalizing s with
  | nil =>
      exact Nat.zero_le _
  | cons a acts ih =>
      rcases act_sound h a with ⟨s₁, hact, hsound, hsteps, hkeys⟩
      have hqueue : s.platform.keyboard.queue ≠ [] := by
        rintro hnil
        rw [hnil] at hwaiting
        exact absurd hwaiting (Nat.not_lt_zero _)
      rcases urgent_step h hmask hqueue hurgent hact with ⟨hnext, hdue⟩
      rw [eventsOf_cons hact, keysIn_append, List.length_append] at hwaiting ⊢
      have hlength := congrArg List.length hkeys
      rw [List.length_append, List.length_append] at hlength
      have hrest := ih hsound ((masked_of_config hsteps.config _).trans hmask) hnext (by omega)
      rw [handledIn_cons hact, timerRequests_cons]
      omega

/-! ## Masks -/

theorem dead_event (h : s.Sound false) (a : SysAction) : keysIn (s.event a) = [] := by
  have hmode : ¬ s.mode = .handling 0x21 := by
    intro hmode
    have hwaits := h.keyWaits.2
    rw [if_pos hmode] at hwaits
    exact absurd hwaits.1 (by decide)
  cases a with
  | handle x cr2 =>
      rw [System.event, if_neg hmode]
      split <;> rfl
  | shell stack =>
      rw [System.event]
      split <;> rfl
  | raise l | lower l | press b | accept | acknowledge =>
      rfl

theorem dead_run (h : s.Sound false) (acts : List SysAction) : keysIn (eventsOf s acts) = [] := by
  induction acts generalizing s with
  | nil =>
      rfl
  | cons a acts ih =>
      rcases act_sound h a with ⟨s₁, hact, hsound, -, -⟩
      rw [eventsOf_cons hact, keysIn_append, dead_event h a, ih hsound]
      rfl

/-! ## Rounds -/

theorem timerDue_le_one (hmode : s.mode = .running) : s.timerDue ≤ 1 := by
  have hnot : ¬ s.mode = .handling 0x20 := by rw [hmode]; exact fun hEq => by cases hEq
  have hle := Bool.toNat_le (decide ((0 : Fin 8) ∈ s.platform.pics.master.irr))
  rw [System.timerDue, decide_eq_false hnot, Bool.toNat_false]
  omega

/-- The processor takes an interrupt and handles it, and no device does anything. -/
def serviceRound (x : Interrupted × UInt64) : List SysAction :=
  [.accept, .acknowledge, .handle x.1 x.2]

theorem pressesOf_append (acts acts' : List SysAction) :
    pressesOf (acts ++ acts') = pressesOf acts ++ pressesOf acts' := by
  induction acts with
  | nil =>
      rfl
  | cons a acts ih =>
      rw [List.cons_append, pressesOf_cons, ih, ← List.append_assoc, ← pressesOf_cons]

/-- Nothing is handled while keys come, and they are what comes. -/
theorem eventsOf_presses (s : System) (bs : List UInt8) (acts : List SysAction) :
    eventsOf s (bs.map .press ++ acts) =
      eventsOf { s with platform := bs.foldl Platform.press s.platform } acts := by
  induction bs generalizing s with
  | nil =>
      rfl
  | cons b bs ih =>
      rw [List.map_cons, List.cons_append, eventsOf_cons rfl, ih]
      rfl

theorem pressesOf_presses (bs : List UInt8) (acts : List SysAction) :
    pressesOf (bs.map .press ++ acts) = bs ++ pressesOf acts := by
  induction bs with
  | nil =>
      rfl
  | cons b bs ih =>
      rw [List.map_cons, List.cons_append, pressesOf, ih, List.cons_append]

theorem pressesOf_rounds (xs : List (Interrupted × UInt64)) :
    pressesOf (xs.flatMap serviceRound) = [] := by
  induction xs with
  | nil =>
      rfl
  | cons x xs ih =>
      rw [List.flatMap_cons, pressesOf_append, ih]
      rfl

/-- A round while a byte waits: one of the things to handle is handled. -/
theorem round_waiting (h : s.Sound true) (hmask : masked s.platform.pics (.master 1) = false)
    (hqueue : s.platform.keyboard.queue ≠ []) (hmode : s.mode = .running)
    (hpc : s.shell.pc ≠ .halted) (x : Interrupted × UInt64) :
    ∃ s', (serviceRound x).foldlM System.act s = some s' ∧ s'.Sound true ∧
      masked s'.platform.pics (.master 1) = false ∧ s'.mode = .running ∧ s'.shell.pc ≠ .halted ∧
      s'.platform.keyboard.queue.length + s'.timerDue <
        s.platform.keyboard.queue.length + s.timerDue := by
  have haccepts := accepts_of_waiting h hmask hqueue hmode hpc
  have hsound₁ := accept_sound h haccepts
  have hact₁ : s.act .accept = some { s with mode := .acknowledging } := by
    rw [System.act, if_pos haccepts]
  have hdue₁ : ({ s with mode := .acknowledging } : System).timerDue = s.timerDue := by
    have hnot : ¬ CpuMode.acknowledging = .handling 0x20 := fun hEq => by cases hEq
    have hnot' : ¬ s.mode = .handling 0x20 := by rw [hmode]; exact fun hEq => by cases hEq
    simp only [System.timerDue, decide_eq_false hnot, decide_eq_false hnot']
  rcases acknowledge_urgent hsound₁ hmask hqueue rfl with ⟨j, hj, hmem, hact₂⟩
  rcases serve_due (s := { s with mode := .acknowledging }) rfl hj hmem with ⟨-, hdue₂⟩
  rcases act_sound hsound₁ .acknowledge with ⟨s₂, hact₂', hsound₂, -, hkeys₂⟩
  rcases Option.some.inj (hact₂.symm.trans hact₂') with rfl
  rcases handle_urgent hsound₂ hj rfl x.1 x.2 with ⟨s₃, hact₃, hrunning, hpc₃, hdue₃⟩
  rcases act_sound hsound₂ (.handle x.1 x.2) with ⟨s₃', hact₃', hsound₃, hsteps₃, hkeys₃⟩
  rcases Option.some.inj (hact₃.symm.trans hact₃') with rfl
  refine ⟨s₃, ?_, hsound₃, ?_, hrunning, ?_, ?_⟩
  · simp only [serviceRound, List.foldlM_cons, List.foldlM_nil, hact₁, hact₂, hact₃,
      Option.bind_eq_bind, Option.bind_some]
    rfl
  · exact (masked_of_config hsteps₃.config _).trans hmask
  · rw [hpc₃]
    exact hpc
  · have hlength := congrArg List.length hkeys₃
    have hqueue₂ : (System.serve { s with mode := .acknowledging } j).platform.keyboard.queue =
        s.platform.keyboard.queue := rfl
    have hnone : pressesOf [.handle x.1 x.2] = [] := rfl
    rw [List.length_append, List.length_append, hnone, hqueue₂, List.length_nil] at hlength
    omega

/-- After more rounds than there are bytes, no byte waits. -/
theorem rounds_drain (h : s.Sound true) (hmask : masked s.platform.pics (.master 1) = false)
    (hmode : s.mode = .running) (hpc : s.shell.pc ≠ .halted) (xs : List (Interrupted × UInt64))
    (hxs : s.platform.keyboard.queue.length + s.timerDue ≤ xs.length) :
    ∃ s', (xs.flatMap serviceRound).foldlM System.act s = some s' ∧
      s'.platform.keyboard.queue = [] := by
  induction xs generalizing s with
  | nil =>
      refine ⟨s, rfl, List.length_eq_zero_iff.1 ?_⟩
      simp only [List.length_nil] at hxs
      omega
  | cons x xs ih =>
      by_cases hqueue : s.platform.keyboard.queue = []
      · -- No byte comes, so none waits at the end.
        rcases run_sound h ((x :: xs).flatMap serviceRound) with ⟨s', hrun, -, -, hkeys⟩
        rw [pressesOf_rounds, hqueue] at hkeys
        exact ⟨s', hrun, (List.append_eq_nil_iff.1 hkeys).2⟩
      · obtain ⟨s₁, hround, hsound, hmask₁, hmode₁, hpc₁, hless⟩ :=
          round_waiting h hmask hqueue hmode hpc x
        rw [List.length_cons] at hxs
        rcases ih hsound hmask₁ hmode₁ hpc₁ (by omega) with ⟨s₂, hrun, hempty⟩
        refine ⟨s₂, ?_, hempty⟩
        rw [List.flatMap_cons, List.foldlM_append, hround]
        exact hrun

end

/-! ## From `kernel_main` on -/

section

variable (m : PowerOn) (acts : List SysAction)

/-- The states that are reached when no byte waits at `pic_remap`. -/
theorem reached (hqueue : m.platform.keyboard.queue = []) :
    ∃ s, m.run acts = some s ∧ s.Sound true ∧ masked s.platform.pics (.master 1) = false ∧
      keysIn (eventsOf m.system acts) ++ s.platform.keyboard.queue = pressesOf acts := by
  have hsound₀ := m.system_sound
  rw [decide_eq_true hqueue] at hsound₀
  rcases run_sound hsound₀ acts with ⟨s, hrun, hsound, hsteps, hkeys⟩
  have hnone : m.system.platform.keyboard.queue = [] := hqueue
  have hmask : masked m.system.platform.pics (.master 1) = false := by
    simp [PowerOn.system, booted_masked]
  rw [hnone, List.nil_append] at hkeys
  rw [m.run_eq]
  exact ⟨s, hrun, hsound, (masked_of_config hsteps.config _).trans hmask, hkeys⟩

/-- If no byte waits when `pic_remap` writes ICW1, then in every run, with keys while the kernel
boots and behind that, the bytes handled and those that wait are the bytes that came since, in
order; and while one waits the processor takes an interrupt. -/
theorem keys_in_order (keys : Nat → List UInt8)
    (hqueue : ((keysFrom keys 0 3).foldl Platform.press m.platform).keyboard.queue = []) :
    ∃ s₀ s, m.bootPressed keys = some s₀ ∧ acts.foldlM System.act s₀ = some s ∧
      keysIn (eventsOf s₀ acts) ++ s.platform.keyboard.queue =
        keysFrom keys 3 26 ++ pressesOf acts ∧
      (s.platform.keyboard.queue ≠ [] → s.mode = .running → s.shell.pc ≠ .halted →
        s.accepts = true) := by
  rcases reached { m with platform := (keysFrom keys 0 3).foldl Platform.press m.platform }
    ((keysFrom keys 3 26).map .press ++ acts) hqueue with ⟨s, hrun, hsound, hmask, hkeys⟩
  rw [PowerOn.run_eq, List.foldlM_append, press_run] at hrun
  rw [eventsOf_presses, pressesOf_presses] at hkeys
  refine ⟨_, s, ?_, hrun, hkeys, accepts_of_waiting hsound hmask⟩
  rw [boot_pressed, PowerOn.run_eq, press_run]

/-- A key between two accesses of `pic_remap`, and another behind the boot. -/
theorem keys_in_order_reset :
    ∃ s₀ s, resetPower.bootPressed (fun k => if k = 5 then [0x1E] else []) = some s₀ ∧
      [.accept, .raise (.slave 4), .press 0x30, .acknowledge].foldlM System.act s₀ = some s ∧
      keysIn (eventsOf s₀ [.accept, .raise (.slave 4), .press 0x30, .acknowledge]) ++
        s.platform.keyboard.queue = [0x1E, 0x30] ∧
      (s.platform.keyboard.queue ≠ [] → s.mode = .running → s.shell.pc ≠ .halted →
        s.accepts = true) :=
  keys_in_order resetPower [.accept, .raise (.slave 4), .press 0x30, .acknowledge]
    (fun k => if k = 5 then [0x1E] else []) rfl

variable {m acts} {s : System}

/-- When no byte waits at `pic_remap`, from every state that is reached, with the kernel running:
before the bytes that wait there are handled, the other interrupts handled are at most the requests
that the timer makes from then on, and one. -/
theorem keys_not_starved (hqueue : m.platform.keyboard.queue = []) (hrun : m.run acts = some s)
    (hmode : s.mode = .running) (more : List SysAction)
    (hwaiting : (keysIn (eventsOf s more)).length < s.platform.keyboard.queue.length) :
    handledIn s more ≤ (keysIn (eventsOf s more)).length + timerRequests more + 1 := by
  rcases reached m acts hqueue with ⟨s', hrun', hsound, hmask, -⟩
  rcases Option.some.inj (hrun.symm.trans hrun') with rfl
  have hbound := urgent_run hsound hmask (Or.inl hmode) more hwaiting
  have hdue := timerDue_le_one hmode
  omega

/-- A machine on which a key was pressed. -/
def resetPressed : System :=
  { resetPower.system with platform := resetPower.system.platform.press 0x1E }

theorem resetPressed_reached : resetPower.run [.press 0x1E] = some resetPressed := by
  rw [PowerOn.run_eq]
  rfl

/-- The timer is faster. -/
theorem keys_not_starved_reset :
    handledIn resetPressed [.raise (.master 0), .accept, .acknowledge, .handle inKernel 0] ≤
      (keysIn (eventsOf resetPressed
        [.raise (.master 0), .accept, .acknowledge, .handle inKernel 0])).length +
      timerRequests [.raise (.master 0), .accept, .acknowledge, .handle inKernel 0] + 1 :=
  keys_not_starved rfl resetPressed_reached rfl _ (by decide +kernel)

/-- When no byte waits at `pic_remap`, from every state that is reached, with the kernel running and
not halted: if the devices stay quiet, all the bytes that came are handled, in order, within one
interrupt more than the bytes that wait. -/
theorem keys_drained (hqueue : m.platform.keyboard.queue = []) (hrun : m.run acts = some s)
    (hmode : s.mode = .running) (hpc : s.shell.pc ≠ .halted) (xs : List (Interrupted × UInt64))
    (hxs : s.platform.keyboard.queue.length < xs.length) :
    ∃ s', m.run (acts ++ xs.flatMap serviceRound) = some s' ∧ s'.platform.keyboard.queue = [] ∧
      keysIn (eventsOf m.system (acts ++ xs.flatMap serviceRound)) = pressesOf acts := by
  rcases reached m acts hqueue with ⟨s₁, hrun₁, hsound, hmask, -⟩
  rcases Option.some.inj (hrun.symm.trans hrun₁) with rfl
  have hdue := timerDue_le_one hmode
  rcases rounds_drain hsound hmask hmode hpc xs (by omega) with ⟨s', hrounds, hempty⟩
  have hboth : m.run (acts ++ xs.flatMap serviceRound) = some s' := by
    rw [m.run_eq] at hrun ⊢
    rw [List.foldlM_append, hrun]
    exact hrounds
  rcases reached m (acts ++ xs.flatMap serviceRound) hqueue with ⟨s₂, hrun₂, -, -, hkeys⟩
  rcases Option.some.inj (hboth.symm.trans hrun₂) with rfl
  rw [hempty, pressesOf_append, pressesOf_rounds, List.append_nil, List.append_nil] at hkeys
  exact ⟨s', hboth, hempty, hkeys⟩

theorem keys_drained_reset :
    ∃ s', resetPower.run ([.press 0x1E] ++ [(inKernel, 0), (inKernel, 0)].flatMap serviceRound) =
        some s' ∧ s'.platform.keyboard.queue = [] ∧
      keysIn (eventsOf resetPower.system
        ([.press 0x1E] ++ [(inKernel, 0), (inKernel, 0)].flatMap serviceRound)) = [0x1E] :=
  keys_drained rfl resetPressed_reached rfl (fun hEq => by cases hEq) [(inKernel, 0), (inKernel, 0)]
    (by decide)

variable (m)

/-- A key is handled in some run. -/
theorem heard (hqueue : m.platform.keyboard.queue = []) :
    ∃ acts, keysIn (eventsOf m.system acts) ≠ [] := by
  rcases reached m [.press 0x1E] hqueue with ⟨s, hpress, hsound, hmask, -⟩
  rw [m.run_eq] at hpress
  rcases Option.some.inj hpress with rfl
  have hwaiting : (m.system.platform.press 0x1E).keyboard.queue = [0x1E] := by
    have happend : (m.system.platform.press 0x1E).keyboard.queue =
        m.platform.keyboard.queue ++ [0x1E] := rfl
    rw [happend, hqueue]
    rfl
  obtain ⟨s', hrounds, hempty⟩ :=
    rounds_drain hsound hmask rfl (fun hEq => by cases hEq) [(inKernel, 0), (inKernel, 0)]
      (by
        have hdue := timerDue_le_one (s := { m.system with
          platform := m.system.platform.press 0x1E }) rfl
        rw [hwaiting]
        exact Nat.add_le_add_left hdue 1)
  rcases run_sound hsound _ with ⟨s'', hrounds', -, -, hkeys⟩
  rcases Option.some.inj (hrounds.symm.trans hrounds') with rfl
  refine ⟨.press 0x1E :: [(inKernel, 0), (inKernel, 0)].flatMap serviceRound, fun hnone => ?_⟩
  rw [eventsOf_cons rfl] at hnone
  rw [hempty, pressesOf_rounds, List.append_nil, List.append_nil, hwaiting] at hkeys
  exact absurd (hkeys.symm.trans hnone) (by decide)

/-- The keyboard is never heard, whatever is pressed, exactly when a byte is waiting already when
`pic_remap` begins. -/
theorem keyboard_dead_iff :
    (∀ acts, keysIn (eventsOf m.system acts) = []) ↔ m.platform.keyboard.queue ≠ [] := by
  constructor
  · intro hdead hqueue
    rcases heard m hqueue with ⟨acts, hheard⟩
    exact hheard (hdead acts)
  · intro hqueue
    have hsound := m.system_sound
    rw [decide_eq_false hqueue] at hsound
    exact fun acts => dead_run hsound acts

end

end Interrupt
end Feudos
