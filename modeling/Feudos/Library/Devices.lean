import Mathlib.Algebra.GroupWithZero.Nat
import Mathlib.Data.Finset.Insert
import Mathlib.Data.Fintype.Basic

/-!
# Devices behind I/O ports

The interrupt controllers of a PC, its keyboard controller and its interval timer, as far as a
kernel with edge-triggered interrupts and explicit ends of interrupt meets them.

- `PortBus`  : `in` and `out` on a machine;
- `Chip`     : one 8259A, with its initialization words, its mask and fully nested priorities;
- `Pics`     : two of them in cascade, and the two acknowledge cycles of the processor;
- `InService`: what is in service when the processor has got a line's vector;
- `Platform` : the devices together, on the ports of a PC.

A command that is not described here has no result.  Lines may rise and fall at any time, also
between the processor's decision to take an interrupt and its acknowledge cycles, so the vectors
of withdrawn requests (line 7 of either controller, with nothing in service) are part of this.
-/

namespace Devices

/-! ## Ports -/

/-- Port output and input on machines of type `σ`. -/
structure PortBus (σ : Type*) where
  outb : σ → UInt16 → UInt8 → Option σ
  inb : σ → UInt16 → Option (UInt8 × σ)

/-! ## An interrupt controller -/

/-- The numerals of type `Fin 8` name lines. -/
scoped instance neZeroEight : NeZero 8 :=
  ⟨by decide⟩

/-- Lines of one controller; line 0 has the highest priority. -/
abbrev Lines := Finset (Fin 8)

/-- The words that the data port expects during initialization. -/
inductive Icw
  | icw2
  | icw3
  | icw4
  deriving DecidableEq

/-- Requests, lines in service, the mask, and the words ICW2, ICW3 and ICW4. -/
@[ext]
structure Chip where
  irr : Lines
  isr : Lines
  imr : UInt8
  base : UInt8
  cascade : UInt8
  mode : UInt8
  expects : List Icw
  deriving DecidableEq

namespace Chip

/-- ICW1: requests latched so far are forgotten, nothing is in service, and no line is masked. -/
def start (v : UInt8) : Chip :=
  { irr := ∅
    isr := ∅
    imr := 0
    base := 0
    cascade := 7
    mode := 0
    expects := [.icw2] ++ (if v &&& 0x02 = 0 then [.icw3] else []) ++
      (if v &&& 0x01 ≠ 0 then [.icw4] else []) }

/-- The non-specific end of interrupt: the line of the highest priority leaves service. -/
def eoi (c : Chip) : Chip :=
  { c with isr := c.isr.filter (fun i => ∃ j ∈ c.isr, j < i) }

/-- The command port: ICW1 for edge-triggered lines, and the non-specific end of interrupt. -/
def command (c : Chip) (v : UInt8) : Option Chip :=
  if v &&& 0x18 = 0x10 then some (start v)
  else if v = 0x20 then some c.eoi
  else none

/-- The data port: the next word of the initialization, or the mask. -/
def data (c : Chip) (v : UInt8) : Chip :=
  match c.expects with
  | [] => { c with imr := v }
  | .icw2 :: rest => { c with base := v &&& 0xF8, expects := rest }
  | .icw3 :: rest => { c with cascade := v, expects := rest }
  | .icw4 :: rest => { c with mode := v, expects := rest }

/-- Initialized for a processor of the 8086 family, with explicit ends of interrupt. -/
def Ready (c : Chip) : Prop := c.expects = [] ∧ c.mode = 1

/-- The line has a request that is not masked, and nothing of its own or of a higher priority is in
service. -/
def Asks (c : Chip) (i : Fin 8) : Prop :=
  i ∈ c.irr ∧ c.imr.toNat.testBit i = false ∧ ∀ j ∈ c.isr, i < j

instance (c : Chip) : Decidable c.Ready := inferInstanceAs (Decidable (_ ∧ _))

instance (c : Chip) (i : Fin 8) : Decidable (c.Asks i) :=
  inferInstanceAs (Decidable (_ ∧ _ ∧ _))

/-- The line that is served next. -/
def best (c : Chip) : Option (Fin 8) :=
  (List.finRange 8).find? (fun i => c.Asks i)

/-- A line goes from request to service. -/
def serve (c : Chip) (i : Fin 8) : Chip :=
  { c with irr := c.irr.erase i, isr := insert i c.isr }

def raise (c : Chip) (i : Fin 8) : Chip :=
  { c with irr := insert i c.irr }

def lower (c : Chip) (i : Fin 8) : Chip :=
  { c with irr := c.irr.erase i }

/-- What initialization and masking set. -/
def config (c : Chip) : UInt8 × UInt8 × UInt8 × UInt8 × List Icw :=
  (c.imr, c.base, c.cascade, c.mode, c.expects)

variable {c : Chip} {i : Fin 8}

theorem best_asks (h : c.best = some i) : c.Asks i := by
  simpa using List.find?_some h

theorem best_none : c.best = none ↔ ∀ i, ¬ c.Asks i := by
  simp [best, List.find?_eq_none]

theorem best_isSome : c.best.isSome = true ↔ ∃ i, c.Asks i := by
  rw [Option.isSome_iff_ne_none, Ne, best_none]
  simp

/-- The line served next has the highest priority of those that ask. -/
theorem best_of_asks (h : c.Asks i) : ∃ j, j ≤ i ∧ c.best = some j := by
  have hsome : c.best.isSome = true := best_isSome.2 ⟨i, h⟩
  rcases Option.isSome_iff_exists.1 hsome with ⟨j, hj⟩
  refine ⟨j, ?_, hj⟩
  rcases List.find?_eq_some_iff_getElem.1 hj with ⟨-, k, hk, hget, hfirst⟩
  rw [List.getElem_finRange] at hget
  by_contra hlt
  have hik : (i : Nat) < k := by
    have hval : (j : Nat) = k := by rw [← hget]; rfl
    omega
  have hno := hfirst i hik
  simp [h] at hno

/-- Nothing, or one line, in service: nothing is left. -/
theorem eoi_empty (h : c.isr = ∅) : c.eoi.isr = ∅ := by
  simp [eoi, h]

theorem eoi_singleton (h : c.isr = {i}) : c.eoi.isr = ∅ := by
  simp [eoi, h]

/-- The data port has nothing to do with the requests. -/
theorem data_irr (c : Chip) (irr : Lines) (v : UInt8) :
    ({ c with irr := irr }).data v = { c.data v with irr := irr } ∧ (c.data v).irr = c.irr := by
  rcases c with ⟨irr₀, isr, imr, base, cascade, mode, _ | ⟨w, rest⟩⟩
  · exact ⟨rfl, rfl⟩
  · cases w with
    | icw2 | icw3 | icw4 =>
        exact ⟨rfl, rfl⟩

theorem Ready.of_config {c c' : Chip} (h : c'.config = c.config) : c'.Ready ↔ c.Ready := by
  simp only [config, Prod.mk.injEq] at h
  simp only [Ready, h]

end Chip

/-! ## Two controllers in cascade -/

/-- The slave's output is wired to line 2 of the master. -/
structure Pics where
  master : Chip
  slave : Chip
  deriving DecidableEq

/-- A line of the master or of the slave. -/
inductive Line
  | master (i : Fin 8)
  | slave (i : Fin 8)
  deriving DecidableEq

namespace Pics

/-- The master with the slave's output on its line 2. -/
def view (p : Pics) : Chip :=
  if p.slave.best.isSome then p.master.raise 2 else p.master

/-- The output to the processor. -/
def int (p : Pics) : Bool :=
  p.view.best.isSome

/-- The first acknowledge cycle: the master gives the line, or leaves that to the slave. -/
def inta (p : Pics) : Option (Pics × Option Line) :=
  if p.master.Ready then
    match p.view.best with
    -- The request has gone: line 7 is given, and nothing is in service.
    | none => some (p, some (.master 7))
    | some i =>
        some ({ p with master := p.master.serve i },
          if p.master.cascade.toNat.testBit i then none else some (.master i))
  else none

/-- The second acknowledge cycle, when the slave is asked. -/
def intaSlave (p : Pics) : Option (Pics × Line) :=
  if p.slave.Ready ∧ p.slave.cascade = 2 then
    match p.slave.best with
    | none => some (p, .slave 7)
    | some i => some ({ p with slave := p.slave.serve i }, .slave i)
  else none

/-- The vector of a line. -/
def vector (p : Pics) : Line → UInt8
  | .master i => p.master.base + UInt8.ofNat i
  | .slave i => p.slave.base + UInt8.ofNat i

/-- A device raises its line; no device is wired to line 2 of the master. -/
def raise (p : Pics) : Line → Pics
  | .master i => if i = 2 then p else { p with master := p.master.raise i }
  | .slave i => { p with slave := p.slave.raise i }

/-- A device takes its request back. -/
def lower (p : Pics) : Line → Pics
  | .master i => { p with master := p.master.lower i }
  | .slave i => { p with slave := p.slave.lower i }

/-- The ends of interrupt for a line. -/
def eoi (p : Pics) : Line → Pics
  | .master _ => { p with master := p.master.eoi }
  | .slave _ => { master := p.master.eoi, slave := p.slave.eoi }

/-- Nothing is in service. -/
def Idle (p : Pics) : Prop := p.master.isr = ∅ ∧ p.slave.isr = ∅

/-- What is in service after the line was given to the processor: the line, or nothing if it is
line 7 for a request that has gone. -/
def InService (p : Pics) : Line → Prop
  | .master i => i ≠ 2 ∧ p.slave.isr = ∅ ∧ (p.master.isr = {i} ∨ i = 7 ∧ p.master.isr = ∅)
  | .slave i => p.master.isr = {2} ∧ (p.slave.isr = {i} ∨ i = 7 ∧ p.slave.isr = ∅)

/-- The slave has been asked and has not answered. -/
def Asked (p : Pics) : Prop := p.master.isr = {2} ∧ p.slave.isr = ∅

/-- Both are initialized, in cascade on line 2, with the vectors from `b₁` and from `b₂` on. -/
structure Wired (b₁ b₂ : UInt8) (p : Pics) : Prop where
  master_ready : p.master.Ready
  slave_ready : p.slave.Ready
  master_base : p.master.base = b₁
  slave_base : p.slave.base = b₂
  master_cascade : p.master.cascade = 4
  slave_cascade : p.slave.cascade = 2
  no_device : (2 : Fin 8) ∉ p.master.irr

variable {p p' : Pics} {b₁ b₂ : UInt8} {l : Line}

theorem Wired.of_config (h : p.Wired b₁ b₂) (hmaster : p'.master.config = p.master.config)
    (hslave : p'.slave.config = p.slave.config) (hirr : (2 : Fin 8) ∉ p'.master.irr) :
    p'.Wired b₁ b₂ := by
  have hmasterReady := (Chip.Ready.of_config hmaster).2 h.master_ready
  have hslaveReady := (Chip.Ready.of_config hslave).2 h.slave_ready
  simp only [Chip.config, Prod.mk.injEq] at hmaster hslave
  rcases hmaster with ⟨-, hbase₁, hcascade₁, -, -⟩
  rcases hslave with ⟨-, hbase₂, hcascade₂, -, -⟩
  exact ⟨hmasterReady, hslaveReady, hbase₁.trans h.master_base, hbase₂.trans h.slave_base,
    hcascade₁.trans h.master_cascade, hcascade₂.trans h.slave_cascade, hirr⟩

theorem testBit_cascade : ∀ i : Fin 8, (4 : UInt8).toNat.testBit i = decide (i = 2) := by
  decide

/-- Only line 2 is the slave's. -/
theorem requested_of_view {i : Fin 8} (hi : i ≠ 2) (h : i ∈ p.view.irr) : i ∈ p.master.irr := by
  rw [view] at h
  split at h
  · exact (Finset.mem_insert.1 h).resolve_left hi
  · exact h

/-- What the first acknowledge cycle does to an idle pair.  Line 7 can be given without having been
requested. -/
structure FirstCycle (p p' : Pics) (answer : Option Line) : Prop where
  config : p'.master.config = p.master.config
  slave : p'.slave = p.slave
  asked : answer = none → p'.Asked
  given : ∀ l, answer = some l → (∃ i, l = .master i) ∧ p'.InService l
  requests : ∀ i, i ≠ 7 →
    (i ∈ p'.master.irr ↔ i ∈ p.master.irr ∧ answer ≠ some (.master i))
  requested : ∀ i, i ≠ 7 → answer = some (.master i) → i ∈ p.master.irr

theorem inta_idle (hwired : p.Wired b₁ b₂) (hidle : p.Idle) :
    ∃ p' answer, p.inta = some (p', answer) ∧ FirstCycle p p' answer := by
  rcases hidle with ⟨hmaster, hslave⟩
  rw [inta, if_pos hwired.master_ready, hwired.master_cascade]
  cases hbest : p.view.best with
  | none =>
      refine ⟨p, some (.master 7), rfl, rfl, rfl, (fun h => by cases h), ?_, ?_, ?_⟩
      · rintro l ⟨⟩
        exact ⟨⟨7, rfl⟩, by decide, hslave, Or.inr ⟨rfl, hmaster⟩⟩
      · intro i hi
        simp [Ne.symm hi]
      · rintro i hi ⟨⟩
        exact absurd rfl hi
  | some i =>
      by_cases hi : i = 2
      · -- The slave is asked; its line is not latched in the master.
        subst hi
        refine ⟨{ p with master := p.master.serve 2 }, none, rfl, rfl, rfl, ?_, ?_, ?_, ?_⟩
        · exact fun _ => ⟨by simp [Chip.serve, hmaster], hslave⟩
        · exact fun l hl => by cases hl
        · intro j _
          have hj2 : j ∈ p.master.irr → j ≠ 2 := fun hmem hEq => hwired.no_device (hEq ▸ hmem)
          simp only [Chip.serve, Finset.mem_erase]
          exact ⟨fun h => ⟨h.2, fun hEq => by cases hEq⟩, fun h => ⟨hj2 h.1, h.1⟩⟩
        · exact fun j _ hj => by cases hj
      · have hbit : (4 : UInt8).toNat.testBit i = false := by
          rw [testBit_cascade]
          exact decide_eq_false hi
        have hrequested : i ∈ p.master.irr := requested_of_view hi (Chip.best_asks hbest).1
        refine ⟨{ p with master := p.master.serve i }, some (.master i), ?_, rfl, rfl, ?_, ?_, ?_,
          ?_⟩
        · simp only [hbit]
          rfl
        · exact fun h => by cases h
        · rintro l ⟨⟩
          exact ⟨⟨i, rfl⟩, hi, hslave, Or.inl (by simp [Chip.serve, hmaster])⟩
        · intro j _
          simp [Chip.serve, Finset.mem_erase, and_comm, eq_comm]
        · rintro j _ ⟨⟩
          exact hrequested

/-- The second acknowledge cycle puts a line of the slave into service. -/
theorem intaSlave_asked (hwired : p.Wired b₁ b₂) (hasked : p.Asked) :
    ∃ p' i, p.intaSlave = some (p', .slave i) ∧ p'.master = p.master ∧
      p'.slave.config = p.slave.config ∧ p'.InService (.slave i) := by
  rcases hasked with ⟨hmaster, hslave⟩
  rw [intaSlave, if_pos ⟨hwired.slave_ready, hwired.slave_cascade⟩]
  cases p.slave.best with
  | none =>
      exact ⟨p, 7, rfl, rfl, rfl, hmaster, Or.inr ⟨rfl, hslave⟩⟩
  | some i =>
      refine ⟨_, i, rfl, rfl, rfl, hmaster, Or.inl ?_⟩
      simp [Chip.serve, hslave]

/-- After the ends of interrupt for the line in service nothing is in service, also when there was
nothing to end. -/
theorem eoi_idle (h : p.InService l) : (p.eoi l).Idle := by
  cases l with
  | master i =>
      rcases h with ⟨-, hslave, hmaster⟩
      refine ⟨?_, hslave⟩
      rcases hmaster with hone | ⟨-, hnone⟩
      · exact Chip.eoi_singleton hone
      · exact Chip.eoi_empty hnone
  | slave i =>
      rcases h with ⟨hmaster, hslave⟩
      refine ⟨Chip.eoi_singleton hmaster, ?_⟩
      rcases hslave with hone | ⟨-, hnone⟩
      · exact Chip.eoi_singleton hone
      · exact Chip.eoi_empty hnone

/-! What is in service, and how the controllers are set up, does not depend on the requests. -/

theorem Idle.of_isr (h : p.Idle) (hmaster : p'.master.isr = p.master.isr)
    (hslave : p'.slave.isr = p.slave.isr) : p'.Idle := by
  rw [Idle, hmaster, hslave]
  exact h

theorem Asked.of_isr (h : p.Asked) (hmaster : p'.master.isr = p.master.isr)
    (hslave : p'.slave.isr = p.slave.isr) : p'.Asked := by
  rw [Asked, hmaster, hslave]
  exact h

theorem InService.of_isr (h : p.InService l) (hmaster : p'.master.isr = p.master.isr)
    (hslave : p'.slave.isr = p.slave.isr) : p'.InService l := by
  cases l with
  | master i | slave i =>
      simp only [InService, hmaster, hslave] at h ⊢
      exact h

theorem raise_isr (p : Pics) (l : Line) :
    (p.raise l).master.isr = p.master.isr ∧ (p.raise l).slave.isr = p.slave.isr := by
  cases l with
  | master i =>
      unfold raise
      dsimp only
      split <;> exact ⟨rfl, rfl⟩
  | slave i =>
      exact ⟨rfl, rfl⟩

theorem lower_isr (p : Pics) (l : Line) :
    (p.lower l).master.isr = p.master.isr ∧ (p.lower l).slave.isr = p.slave.isr := by
  cases l with
  | master i | slave i =>
      exact ⟨rfl, rfl⟩

/-- The words that initialization and masking have set. -/
def config (p : Pics) : (UInt8 × UInt8 × UInt8 × UInt8 × List Icw) ×
    (UInt8 × UInt8 × UInt8 × UInt8 × List Icw) :=
  (p.master.config, p.slave.config)

theorem raise_config (p : Pics) (l : Line) : (p.raise l).config = p.config := by
  cases l with
  | master i =>
      unfold raise
      dsimp only
      split <;> rfl
  | slave i =>
      rfl

theorem lower_config (p : Pics) (l : Line) : (p.lower l).config = p.config := by
  cases l with
  | master i | slave i =>
      rfl

theorem eoi_config (p : Pics) (l : Line) : (p.eoi l).config = p.config := by
  cases l with
  | master i | slave i =>
      rfl

theorem eoi_irr (p : Pics) (l : Line) : (p.eoi l).master.irr = p.master.irr := by
  cases l with
  | master i | slave i =>
      rfl

theorem mem_raise_irr {i : Fin 8} :
    i ∈ (p.raise l).master.irr ↔ i ∈ p.master.irr ∨ l = .master i ∧ i ≠ 2 := by
  cases l with
  | master j =>
      by_cases hj : j = 2
      · subst hj
        simp only [raise, if_true, Line.master.injEq]
        exact ⟨Or.inl, fun h => h.elim id (fun hi => absurd hi.1.symm hi.2)⟩
      · simp only [raise, if_neg hj, Chip.raise, Finset.mem_insert, Line.master.injEq]
        constructor
        · rintro (rfl | hi)
          · exact Or.inr ⟨rfl, hj⟩
          · exact Or.inl hi
        · rintro (hi | ⟨rfl, -⟩)
          · exact Or.inr hi
          · exact Or.inl rfl
  | slave j =>
      simp [raise]

theorem mem_lower_irr {i : Fin 8} :
    i ∈ (p.lower l).master.irr ↔ i ∈ p.master.irr ∧ l ≠ .master i := by
  cases l with
  | master j =>
      simp [lower, Chip.lower, and_comm, eq_comm]
  | slave j =>
      simp [lower]

theorem raise_wired (h : p.Wired b₁ b₂) (l : Line) : (p.raise l).Wired b₁ b₂ := by
  have hconfig := raise_config p l
  simp only [config, Prod.mk.injEq] at hconfig
  refine h.of_config hconfig.1 hconfig.2 (fun hmem => ?_)
  rcases mem_raise_irr.1 hmem with hold | ⟨-, hne⟩
  · exact h.no_device hold
  · exact hne rfl

theorem lower_wired (h : p.Wired b₁ b₂) (l : Line) : (p.lower l).Wired b₁ b₂ := by
  have hconfig := lower_config p l
  simp only [config, Prod.mk.injEq] at hconfig
  exact h.of_config hconfig.1 hconfig.2 (fun hmem => h.no_device (mem_lower_irr.1 hmem).1)

theorem eoi_wired (h : p.Wired b₁ b₂) (l : Line) : (p.eoi l).Wired b₁ b₂ := by
  have hconfig := eoi_config p l
  simp only [config, Prod.mk.injEq] at hconfig
  exact h.of_config hconfig.1 hconfig.2 (by rw [eoi_irr]; exact h.no_device)

theorem FirstCycle.wired {answer : Option Line} (h : p.Wired b₁ b₂)
    (hcycle : FirstCycle p p' answer) : p'.Wired b₁ b₂ :=
  h.of_config hcycle.config (by rw [hcycle.slave])
    (fun hmem => h.no_device ((hcycle.requests 2 (by decide)).1 hmem).1)

/-- In an idle pair every request of a line that is not masked asks the processor. -/
theorem view_asks (hidle : p.Idle) {i : Fin 8} (hi : i ∈ p.master.irr)
    (hmask : p.master.imr.toNat.testBit i = false) : p.view.Asks i := by
  refine ⟨?_, ?_, ?_⟩
  · rw [view]
    split
    · exact Finset.mem_insert_of_mem hi
    · exact hi
  · rw [view]
    split <;> exact hmask
  · intro j hj
    rw [view] at hj
    have hempty : j ∈ p.master.isr := by
      split at hj <;> exact hj
    rw [hidle.1] at hempty
    exact absurd hempty (Finset.notMem_empty j)

theorem int_of_request (hidle : p.Idle) {i : Fin 8} (hi : i ∈ p.master.irr)
    (hmask : p.master.imr.toNat.testBit i = false) : p.int = true := by
  rw [int, Chip.best_isSome]
  exact ⟨i, view_asks hidle hi hmask⟩

/-- An idle pair with a request above the cascade's line gives that line or one above it. -/
theorem inta_of_request (hwired : p.Wired b₁ b₂) (hidle : p.Idle) {i : Fin 8}
    (hi : i ∈ p.master.irr) (habove : i < 2) (hmask : p.master.imr.toNat.testBit i = false) :
    ∃ j, j ≤ i ∧ j ∈ p.master.irr ∧
      p.inta = some ({ p with master := p.master.serve j }, some (.master j)) := by
  rcases Chip.best_of_asks (view_asks hidle hi hmask) with ⟨j, hle, hbest⟩
  have hj : j ≠ 2 := by omega
  have hbit : (4 : UInt8).toNat.testBit j = false := by
    rw [testBit_cascade]
    exact decide_eq_false hj
  refine ⟨j, hle, requested_of_view hj (Chip.best_asks hbest).1, ?_⟩
  rw [inta, if_pos hwired.master_ready, hbest, hwired.master_cascade]
  simp only [hbit]
  rfl

end Pics

/-! ## The keyboard controller -/

/-- The bytes waiting, of which the first is in the output buffer, and the byte read last. -/
structure KeyboardController where
  queue : List UInt8
  last : UInt8
  deriving DecidableEq

/-! ## The interval timer -/

/-- Channel 0: its operating mode, its reload value, and the low byte of a value half written. -/
structure Timer where
  mode : UInt8
  reload : Nat
  low : Option UInt8
  deriving DecidableEq

namespace Timer

/-- The control port: channel 0 with the low byte before the high byte. -/
def control (t : Timer) (v : UInt8) : Option Timer :=
  if v &&& 0xF1 = 0x30 then some { t with mode := (v >>> 1) &&& 7, low := none } else none

/-- The data port of channel 0; a reload value of zero stands for `2 ^ 16`. -/
def data (t : Timer) (v : UInt8) : Timer :=
  match t.low with
  | none => { t with low := some v }
  | some low =>
      let reload := low.toNat + 256 * v.toNat
      { t with low := none, reload := if reload = 0 then 65536 else reload }

/-- A reload value is written as two bytes. -/
theorem data_data {t : Timer} (h : t.low = none) (low high : UInt8) :
    (t.data low).data high =
      { t with
        low := none
        reload := if low.toNat + 256 * high.toNat = 0 then 65536
          else low.toNat + 256 * high.toNat } := by
  simp only [data, h]

end Timer

/-! ## The ports of a PC -/

structure Platform where
  pics : Pics
  keyboard : KeyboardController
  timer : Timer
  deriving DecidableEq

namespace Platform

/-- Line 1 is up while the keyboard controller has a byte: the next byte raises it again. -/
def keyboardLine : Line := .master 1

/-- Reading the output buffer. -/
def readKeyboard (p : Platform) : UInt8 × Platform :=
  match p.keyboard.queue with
  | [] => (p.keyboard.last, p)
  | b :: rest =>
      let pics := p.pics.lower keyboardLine
      (b, { p with
        pics := if rest = [] then pics else pics.raise keyboardLine
        keyboard := { queue := rest, last := b } })

theorem readKeyboard_isr (p : Platform) :
    p.readKeyboard.2.pics.master.isr = p.pics.master.isr ∧
      p.readKeyboard.2.pics.slave.isr = p.pics.slave.isr := by
  unfold readKeyboard
  split
  · exact ⟨rfl, rfl⟩
  · dsimp only
    split <;> exact ⟨rfl, rfl⟩

theorem readKeyboard_config (p : Platform) :
    p.readKeyboard.2.pics.config = p.pics.config := by
  unfold readKeyboard
  split
  · rfl
  · dsimp only
    split <;> rfl

theorem readKeyboard_wired {p : Platform} {b₁ b₂ : UInt8} (h : p.pics.Wired b₁ b₂) :
    p.readKeyboard.2.pics.Wired b₁ b₂ := by
  unfold readKeyboard
  split
  · exact h
  · dsimp only
    split
    · exact Pics.lower_wired h _
    · exact Pics.raise_wired (Pics.lower_wired h _) _

/-- The byte read is the first, and the next one requests an interrupt of its own. -/
theorem readKeyboard_cons {p : Platform} {b : UInt8} {rest : List UInt8}
    (h : p.keyboard.queue = b :: rest) :
    p.readKeyboard.1 = b ∧ p.readKeyboard.2.keyboard.queue = rest ∧
      ((1 : Fin 8) ∈ p.readKeyboard.2.pics.master.irr ↔ rest ≠ []) := by
  unfold readKeyboard
  rw [h]
  refine ⟨rfl, rfl, ?_⟩
  by_cases hrest : rest = []
  · simp [hrest, Pics.mem_lower_irr, keyboardLine]
  · simp [hrest, Pics.mem_raise_irr, keyboardLine]

/-- A byte comes from the keyboard. -/
def press (p : Platform) (b : UInt8) : Platform :=
  { p with
    pics := if p.keyboard.queue = [] then p.pics.raise keyboardLine else p.pics
    keyboard := { p.keyboard with queue := p.keyboard.queue ++ [b] } }

def outb (p : Platform) (port : UInt16) (v : UInt8) : Option Platform :=
  if port = 0x20 then
    (p.pics.master.command v).map (fun c => { p with pics := { p.pics with master := c } })
  else if port = 0x21 then
    some { p with pics := { p.pics with master := p.pics.master.data v } }
  else if port = 0xA0 then
    (p.pics.slave.command v).map (fun c => { p with pics := { p.pics with slave := c } })
  else if port = 0xA1 then
    some { p with pics := { p.pics with slave := p.pics.slave.data v } }
  else if port = 0x43 then
    (p.timer.control v).map (fun t => { p with timer := t })
  else if port = 0x40 then
    some { p with timer := p.timer.data v }
  -- The port that is written to let time pass.
  else if port = 0x80 then
    some p
  else
    none

def inb (p : Platform) (port : UInt16) : Option (UInt8 × Platform) :=
  if port = 0x21 then some (p.pics.master.imr, p)
  else if port = 0xA1 then some (p.pics.slave.imr, p)
  else if port = 0x60 then some p.readKeyboard
  else none

def bus : PortBus Platform where
  outb := outb
  inb := inb

/-! Bytes from the keyboard and accesses to other ports do not meet. -/

variable {port : UInt16}

theorem press_eq (p : Platform) (b : UInt8) :
    p.press b =
      { p with
        pics := { p.pics with
          master := { p.pics.master with
            irr := if p.keyboard.queue = [] then insert 1 p.pics.master.irr
              else p.pics.master.irr } }
        keyboard := { p.keyboard with queue := p.keyboard.queue ++ [b] } } := by
  unfold press
  split <;> rfl

/-- A byte may as well come behind a write to the ports as before it, but for a command to the
master. -/
theorem outb_press (hport : port ≠ 0x20) (v : UInt8) (p : Platform) (b : UInt8) :
    (p.press b).outb port v = (p.outb port v).map (fun p => p.press b) := by
  have hdata := Chip.data_irr p.pics.master
  simp only [outb, press_eq, if_neg hport]
  by_cases h21 : port = 0x21
  · rw [if_pos h21, if_pos h21, Option.map_some, (hdata _ v).1, (hdata ∅ v).2]
  by_cases hA0 : port = 0xA0
  · simp [hA0, Function.comp_def]
  by_cases hA1 : port = 0xA1
  · simp [hA1]
  by_cases h43 : port = 0x43
  · simp [h43, Function.comp_def]
  by_cases h40 : port = 0x40
  · simp [h40]
  by_cases h80 : port = 0x80
  · simp [h80]
  · simp [h21, hA0, hA1, h43, h40, h80]

theorem inb_press (hport : port ≠ 0x60) (p : Platform) (b : UInt8) :
    (p.press b).inb port = (p.inb port).map (fun x => (x.1, x.2.press b)) := by
  simp only [inb, press_eq, if_neg hport]
  by_cases h21 : port = 0x21
  · simp [h21]
  by_cases hA1 : port = 0xA1
  · simp [hA1]
  · simp [h21, hA1]

theorem outb_presses (hport : port ≠ 0x20) (v : UInt8) (p : Platform) (bs : List UInt8) :
    (bs.foldl press p).outb port v = (p.outb port v).map (fun p => bs.foldl press p) := by
  induction bs generalizing p with
  | nil =>
      exact Option.map_id'.symm
  | cons b bs ih =>
      rw [List.foldl_cons, ih, outb_press hport, Option.map_map]
      rfl

theorem inb_presses (hport : port ≠ 0x60) (p : Platform) (bs : List UInt8) :
    (bs.foldl press p).inb port = (p.inb port).map (fun x => (x.1, bs.foldl press x.2)) := by
  induction bs generalizing p with
  | nil =>
      exact Option.map_id'.symm
  | cons b bs ih =>
      rw [List.foldl_cons, ih, inb_press hport, Option.map_map]
      rfl

end Platform

end Devices
