import Feudos.Interrupt.Delivery

/-!
# The timer's counter (`kernel/timer.c`)

- `uptime_counts_ticks`   : the time that `uptime` prints is the number of timer interrupts;
- `Sleeper`               : `sleep_ticks`, with the interrupts at any of its steps;
- `sleep_never_early_iff` : it does not return before its time, unless the target overflows;
- `sleep_at_most_late`    : it returns one tick later at most, if it makes a step between any two
  ticks.
-/

namespace Feudos
namespace Interrupt

open Devices Vga GuardedRun WordStack Positional

/-! ## Uptime -/

/-- `timer_uptime_ms` is exact as long as the product fits. -/
theorem timerUptimeMs_exact_iff (m : Machine) :
    (timerUptimeMs m).toNat = 10 * m.ticks.toNat ↔ m.ticks.toNat * 1000 < 2 ^ 64 := by
  have hthousand : (1000 : UInt64).toNat = 1000 := rfl
  have hfreq : timerFreq.toNat = 100 := rfl
  rw [timerUptimeMs, UInt64.toNat_div, UInt64.toNat_mul, hthousand, hfreq]
  constructor
  · intro hexact
    have hlt := Nat.mod_lt (m.ticks.toNat * 1000) (Nat.two_pow_pos 64)
    omega
  · intro hfits
    rw [Nat.mod_eq_of_lt hfits]
    omega

/-- The hours, minutes and seconds of `uptime`. -/
theorem uptimeText_numerals {m : Machine} {n : Nat} (hn : m.ticks.toNat = n)
    (hfits : n * 1000 < 2 ^ 64) :
    ∃ h mi s, uptimeText m = bytes "up " ++ (h ++ (bytes ":" ++ (mi ++ (bytes ":" ++ (s ++ [10])))))
      ∧ Numeral digitValue 10 (n / 360000) h ∧ Numeral digitValue 10 (n / 6000 % 60) mi ∧
      Numeral digitValue 10 (n / 100 % 60) s := by
  have hms := (timerUptimeMs_exact_iff m).2 (by rw [hn]; exact hfits)
  have hnumeral : ∀ v : UInt64, ∀ k, v.toNat = k → Numeral digitValue 10 k (kprintUint v 10) := by
    rintro v _ rfl
    exact @kprintUint_numeral v 10 (by decide) (by decide)
  have hdiv : ∀ v w : UInt64, ∀ k, v.toNat = k → (v / w).toNat = k / w.toNat := by
    rintro v w _ rfl
    exact UInt64.toNat_div v w
  have hseconds := hdiv _ 1000 _ hms
  have hminutes := hdiv _ 60 _ hseconds
  have hhours := hdiv _ 3600 _ hseconds
  refine ⟨_, _, _, rfl, hnumeral _ _ ?_, hnumeral _ _ ?_, hnumeral _ _ ?_⟩
  · rw [hhours, hn]
    have hlit : (1000 : UInt64).toNat = 1000 ∧ (3600 : UInt64).toNat = 3600 := ⟨rfl, rfl⟩
    rw [hlit.1, hlit.2]
    omega
  · rw [UInt64.toNat_mod, hminutes, hn]
    have hlit : (1000 : UInt64).toNat = 1000 ∧ (60 : UInt64).toNat = 60 := ⟨rfl, rfl⟩
    rw [hlit.1, hlit.2]
    omega
  · rw [UInt64.toNat_mod, hseconds, hn]
    have hlit : (1000 : UInt64).toNat = 1000 ∧ (60 : UInt64).toNat = 60 := ⟨rfl, rfl⟩
    rw [hlit.1, hlit.2]
    omega

/-- In every run from `kernel_main` on: `uptime` prints the time of the timer interrupts so far, in
hours, minutes and seconds. -/
theorem uptime_counts_ticks (m : PowerOn) (acts : List SysAction) (n : Nat)
    (hn : ticksOf (eventsOf m.system acts) = n) (hfits : n * 1000 < 2 ^ 64) :
    ∃ s, m.run acts = some s ∧ ∀ t mem, ∃ e h mi sec,
      kshExec s.machine t (bytes "uptime" ++ 0 :: mem) = some e ∧
      e.terminal = putText t (inColour t.textColor
        (bytes "up " ++ (h ++ (bytes ":" ++ (mi ++ (bytes ":" ++ (sec ++ [10]))))))) ∧
      Numeral digitValue 10 (n / 360000) h ∧ Numeral digitValue 10 (n / 6000 % 60) mi ∧
      Numeral digitValue 10 (n / 100 % 60) sec := by
  rcases run_sound m.system_sound acts with ⟨s, hrun, -, hsteps, -⟩
  rw [m.run_eq]
  refine ⟨s, hrun, fun t mem => ?_⟩
  have hticks : s.machine.ticks.toNat = n := by
    have hzero : m.system.machine.ticks = 0 := rfl
    rw [hsteps.machine, hzero, hn]
    simp only [UInt64.zero_add, UInt64.toNat_ofNat']
    exact Nat.mod_eq_of_lt (by omega)
  rcases uptimeText_numerals hticks hfits with ⟨h, mi, sec, htext, hhours, hminutes, hseconds⟩
  rcases kshExec_effect s.machine t (bytes "uptime") mem (by decide) with ⟨e, hexec, hterminal, -⟩
  have heffect : commandEffect s.machine (bytes "uptime") = .prints (uptimeText s.machine) := by
    have hfind : kshHandlers.find? (fun cur => commandName (bytes "uptime") = bytes cur.name) =
        some { name := "uptime", func := .uptime,
               help := "Prints how long machine been running" } := by
      decide +kernel
    rw [commandEffect, hfind]
    rfl
  rw [heffect, Effect.apply, htext] at hterminal
  exact ⟨e, h, mi, sec, hexec, hterminal, hhours, hminutes, hseconds⟩

theorem uptime_counts_ticks_reset :
    ∃ s, resetPower.run [.raise (.master 0), .accept, .acknowledge, .handle inKernel 0] = some s ∧
      ∀ t mem, ∃ e h mi sec,
        kshExec s.machine t (bytes "uptime" ++ 0 :: mem) = some e ∧
        e.terminal = putText t (inColour t.textColor
          (bytes "up " ++ (h ++ (bytes ":" ++ (mi ++ (bytes ":" ++ (sec ++ [10]))))))) ∧
        Numeral digitValue 10 (1 / 360000) h ∧ Numeral digitValue 10 (1 / 6000 % 60) mi ∧
        Numeral digitValue 10 (1 / 100 % 60) sec :=
  uptime_counts_ticks resetPower [.raise (.master 0), .accept, .acknowledge, .handle inKernel 0] 1
    (by decide +kernel) (by decide)

/-! ## Sleeping -/

/-- Where `sleep_ticks` is: before the test of the loop, between the test and `hlt`, in `hlt`, or
behind the loop. -/
inductive SleepPc
  | test (target : UInt64)
  | hlt (target : UInt64)
  | halted (target : UInt64)
  | done
  deriving DecidableEq

structure Sleeper where
  ticks : UInt64
  pc : SleepPc

/-- `sleep_ticks` when it has computed `target`. -/
def sleepTicks (ticks n : UInt64) : Sleeper :=
  { ticks := ticks, pc := .test (ticks + n) }

/-- A step of `sleep_ticks`, the timer's interrupt, or another one. -/
inductive SleepAction
  | step
  | tick
  | interrupt
  deriving DecidableEq

/-- An interrupt ends `hlt`. -/
def SleepPc.wake : SleepPc → SleepPc
  | .halted target => .test target
  | pc => pc

def Sleeper.act (s : Sleeper) : SleepAction → Sleeper
  | .step =>
      { s with
        pc :=
          match s.pc with
          | .test target => if s.ticks < target then .hlt target else .done
          | .hlt target => .halted target
          | pc => pc }
  | .tick => { ticks := s.ticks + 1, pc := s.pc.wake }
  | .interrupt => { s with pc := s.pc.wake }

/-- How often the timer ticks. -/
def ticksIn (acts : List SleepAction) : Nat :=
  acts.count .tick

theorem ticksIn_cons (a : SleepAction) (acts : List SleepAction) :
    ticksIn (a :: acts) = [a].count .tick + ticksIn acts := by
  rw [ticksIn, ticksIn, ← List.count_append, List.singleton_append]

section

variable {t n : UInt64} {c : Nat} {s : Sleeper}

/-- The test compares the ticks so far with the time to sleep. -/
theorem slept_iff (hfits : t.toNat + n.toNat < 2 ^ 64) (hc : t.toNat + c < 2 ^ 64) :
    t + UInt64.ofNat c < t + n ↔ c < n.toNat := by
  rw [UInt64.lt_iff_toNat_lt, UInt64.toNat_add, UInt64.toNat_add, UInt64.toNat_ofNat']
  omega

/-- After `c` ticks the loop goes on with its target, or the time has passed. -/
def Sleeps (t n : UInt64) (c : Nat) (s : Sleeper) : Prop :=
  s.ticks = t + UInt64.ofNat c ∧
    match s.pc with
    | .test target | .hlt target | .halted target => target = t + n
    | .done => n.toNat ≤ c

theorem add_ofNat_one (t : UInt64) (c : Nat) :
    t + UInt64.ofNat c + 1 = t + UInt64.ofNat (c + 1) := by
  calc
    t + UInt64.ofNat c + 1
        = t + 1 + UInt64.ofNat c := by
          rw [UInt64.add_assoc, UInt64.add_comm (UInt64.ofNat c), UInt64.add_assoc]
    _ = t + UInt64.ofNat (c + 1) := add_ofNat_succ t c

theorem sleeps_act (hfits : t.toNat + n.toNat < 2 ^ 64) (h : Sleeps t n c s) (a : SleepAction) :
    Sleeps t n (c + [a].count .tick) (s.act a) := by
  rcases s with ⟨ticks, pc⟩
  rcases h with ⟨rfl, hpc⟩
  cases a with
  | step =>
      refine ⟨rfl, ?_⟩
      cases pc with
      | test target =>
          obtain rfl : target = t + n := hpc
          by_cases hless : t + UInt64.ofNat c < t + n
          · simp [Sleeper.act, hless]
          · -- Before the time has passed neither side overflows, so the test would hold.
            have hpassed : n.toNat ≤ c := by
              by_contra hearly
              exact hless ((slept_iff hfits (by omega)).2 (by omega))
            simpa [Sleeper.act, hless] using hpassed
      | hlt target | halted target | done =>
          exact hpc
  | tick =>
      refine ⟨?_, ?_⟩
      · exact add_ofNat_one t c
      · cases pc with
        | test target | hlt target | halted target =>
            exact hpc
        | done =>
            exact Nat.le_succ_of_le hpc
  | interrupt =>
      refine ⟨rfl, ?_⟩
      cases pc with
      | test target | hlt target | halted target | done =>
          exact hpc

theorem sleeps_run (hfits : t.toNat + n.toNat < 2 ^ 64) (h : Sleeps t n c s)
    (acts : List SleepAction) : Sleeps t n (c + ticksIn acts) (acts.foldl Sleeper.act s) := by
  induction acts generalizing c s with
  | nil =>
      exact h
  | cons a acts ih =>
      have hrest := ih (sleeps_act hfits h a)
      rw [ticksIn_cons, ← Nat.add_assoc]
      exact hrest

theorem sleeps_start (t n : UInt64) : Sleeps t n 0 (sleepTicks t n) :=
  ⟨(UInt64.add_zero t).symm, rfl⟩

/-- When it does not wait at all. -/
theorem test_done_iff (t n : UInt64) :
    ((sleepTicks t n).act .step).pc = .done ↔ n.toNat = 0 ∨ 2 ^ 64 ≤ t.toNat + n.toNat := by
  have ht := t.toNat_lt
  have hn := n.toNat_lt
  have hless : t < t + n ↔ n.toNat ≠ 0 ∧ t.toNat + n.toNat < 2 ^ 64 := by
    rw [UInt64.lt_iff_toNat_lt, UInt64.toNat_add]
    omega
  have htest : ((sleepTicks t n).act .step).pc =
      if t < t + n then .hlt (t + n) else .done := rfl
  rw [htest]
  split
  · next hlt =>
      have hwaits := hless.1 hlt
      exact iff_of_false (fun hEq => by cases hEq) (by omega)
  · next hge =>
      refine iff_of_true rfl ?_
      by_contra hnot
      exact hge (hless.2 (by omega))

/-- Wherever the interrupts come, `sleep_ticks` does not return before its ticks have passed,
exactly when the target does not overflow. -/
theorem sleep_never_early_iff (t n : UInt64) :
    (∀ acts : List SleepAction, (acts.foldl Sleeper.act (sleepTicks t n)).pc = .done →
      n.toNat ≤ ticksIn acts) ↔ t.toNat + n.toNat < 2 ^ 64 := by
  constructor
  · intro hnever
    by_contra hover
    have ht := t.toNat_lt
    have hzero : ticksIn [.step] = 0 := rfl
    have hearly := hnever [.step] ((test_done_iff t n).2 (Or.inr (by omega)))
    omega
  · intro hfits acts hdone
    have hrun := (sleeps_run hfits (sleeps_start t n) acts).2
    rw [hdone, Nat.zero_add] at hrun
    exact hrun

/-! ## A processor that keeps up -/

/-- Whether a step was made since the last tick. -/
def SleepAction.steppedSince (b : Bool) : SleepAction → Bool
  | .step => true
  | .tick => false
  | .interrupt => b

/-- Between any two ticks the processor makes a step of the loop; `b` tells whether a tick may come
at once. The other interrupts come anywhere. -/
def Paced : Bool → List SleepAction → Prop
  | _, [] => True
  | b, a :: acts => (a = .tick → b = true) ∧ Paced (a.steppedSince b) acts

def Paced.decide : (b : Bool) → (acts : List SleepAction) → Decidable (Paced b acts)
  | _, [] => inferInstanceAs (Decidable True)
  | b, a :: acts =>
      have := Paced.decide (a.steppedSince b) acts
      inferInstanceAs (Decidable ((a = .tick → b = true) ∧ Paced (a.steppedSince b) acts))

instance instDecidablePaced (b : Bool) (acts : List SleepAction) : Decidable (Paced b acts) :=
  Paced.decide b acts

/-- After `c` ticks a loop that still waits for a tick made its last test before the time passed;
once the time and one more tick have passed, no tick comes before its next test. -/
def Prompt (t n : UInt64) (b : Bool) (c : Nat) (s : Sleeper) : Prop :=
  s.ticks = t + UInt64.ofNat c ∧
    match s.pc with
    | .test target => target = t + n ∧ (c ≤ n.toNat ∨ c = n.toNat + 1 ∧ b = false)
    | .hlt target => target = t + n ∧ (c < n.toNat ∨ c = n.toNat ∧ b = false)
    | .halted target => target = t + n ∧ c ≤ n.toNat
    | .done => True

theorem prompt_step {b : Bool} (hfits : t.toNat + n.toNat + 1 < 2 ^ 64) (h : Prompt t n b c s) :
    Prompt t n true c (s.act .step) := by
  rcases s with ⟨ticks, pc⟩
  rcases h with ⟨rfl, hpc⟩
  refine ⟨rfl, ?_⟩
  cases pc with
  | test target =>
      obtain ⟨rfl, hc⟩ := hpc
      by_cases hless : t + UInt64.ofNat c < t + n
      · -- It goes on to `hlt` only before the time has passed.
        have hearly := (slept_iff (by omega) (by omega)).1 hless
        simpa [Sleeper.act, hless] using hearly
      · simp [Sleeper.act, hless]
  | hlt target =>
      exact ⟨hpc.1, by omega⟩
  | halted target =>
      exact hpc
  | done =>
      trivial

theorem prompt_tick (h : Prompt t n true c s) : Prompt t n false (c + 1) (s.act .tick) := by
  rcases s with ⟨ticks, pc⟩
  rcases h with ⟨rfl, hpc⟩
  refine ⟨add_ofNat_one t c, ?_⟩
  cases pc with
  | test target =>
      -- A step was made since the last tick, so the time has not passed by a tick yet.
      have hc : c ≤ n.toNat := by simpa using hpc.2
      have hnext : c + 1 ≤ n.toNat ∨ c + 1 = n.toNat + 1 := by omega
      exact ⟨hpc.1, hnext.imp_right fun hlast => ⟨hlast, rfl⟩⟩
  | hlt target =>
      -- The tick gets lost between the test and `hlt`: the loop sleeps for one more.
      have hc : c < n.toNat := by simpa using hpc.2
      have hnext : c + 1 < n.toNat ∨ c + 1 = n.toNat := by omega
      exact ⟨hpc.1, hnext.imp_right fun hlast => ⟨hlast, rfl⟩⟩
  | halted target =>
      have hc : c ≤ n.toNat := hpc.2
      have hnext : c + 1 ≤ n.toNat ∨ c + 1 = n.toNat + 1 := by omega
      exact ⟨hpc.1, hnext.imp_right fun hlast => ⟨hlast, rfl⟩⟩
  | done =>
      trivial

theorem prompt_interrupt {b : Bool} (h : Prompt t n b c s) :
    Prompt t n b c (s.act .interrupt) := by
  rcases s with ⟨ticks, pc⟩
  rcases h with ⟨rfl, hpc⟩
  refine ⟨rfl, ?_⟩
  cases pc with
  | test target | hlt target | done =>
      exact hpc
  | halted target =>
      -- Any interrupt ends `hlt`, and the test comes next.
      exact ⟨hpc.1, Or.inl hpc.2⟩

theorem prompt_act {b : Bool} (hfits : t.toNat + n.toNat + 1 < 2 ^ 64) (h : Prompt t n b c s)
    {a : SleepAction} (ha : a = .tick → b = true) :
    Prompt t n (a.steppedSince b) (c + [a].count .tick) (s.act a) := by
  cases a with
  | step =>
      exact prompt_step hfits h
  | tick =>
      obtain rfl := ha rfl
      exact prompt_tick h
  | interrupt =>
      exact prompt_interrupt h

theorem prompt_run {b : Bool} (hfits : t.toNat + n.toNat + 1 < 2 ^ 64) (h : Prompt t n b c s)
    {acts : List SleepAction} (hpaced : Paced b acts) :
    ∃ b', Prompt t n b' (c + ticksIn acts) (acts.foldl Sleeper.act s) := by
  induction acts generalizing b c s with
  | nil =>
      exact ⟨b, h⟩
  | cons a acts ih =>
      rcases hpaced with ⟨ha, hacts⟩
      have hrest := ih (prompt_act hfits h ha) hacts
      rw [ticksIn_cons, ← Nat.add_assoc]
      exact hrest

/-- When a step is made between any two ticks, with other interrupts anywhere, `sleep_ticks` returns
with the first step behind its time and one more tick at the latest. -/
theorem sleep_at_most_late (t n : UInt64) (acts : List SleepAction)
    (hfits : t.toNat + n.toNat + 1 < 2 ^ 64) (hpaced : Paced true acts)
    (hticks : n.toNat < ticksIn acts) :
    ((acts ++ [SleepAction.step]).foldl Sleeper.act (sleepTicks t n)).pc = .done := by
  have hstart : Prompt t n true 0 (sleepTicks t n) :=
    ⟨(UInt64.add_zero t).symm, rfl, Or.inl (Nat.zero_le _)⟩
  obtain ⟨b, hprompt⟩ := prompt_run hfits hstart hpaced
  rw [Nat.zero_add] at hprompt
  rw [List.foldl_append]
  generalize acts.foldl Sleeper.act (sleepTicks t n) = s at hprompt ⊢
  rcases s with ⟨ticks, pc⟩
  rcases hprompt with ⟨rfl, hpc⟩
  cases pc with
  | done =>
      rfl
  | test target =>
      obtain ⟨rfl, hc⟩ := hpc
      have hpassed : ¬ t + UInt64.ofNat (ticksIn acts) < t + n := by
        rw [slept_iff (by omega) (by omega)]
        omega
      simp [Sleeper.act, hpassed]
  | hlt target | halted target =>
      -- The last test was made before the time passed, and it has passed by a tick.
      have hlate := hpc.2
      omega

/-- The first tick comes between the test and `hlt`: the sleeper wakes at the second one. -/
theorem sleep_at_most_late_one :
    (List.foldl Sleeper.act (sleepTicks 5 1)
      ([.step, .tick, .interrupt, .step, .tick, .interrupt] ++ [.step])).pc = .done :=
  sleep_at_most_late 5 1 [.step, .tick, .interrupt, .step, .tick, .interrupt] (by decide)
    (by decide) (by decide)

end

end Interrupt
end Feudos
