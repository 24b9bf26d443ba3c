import Feudos.Library.Devices

/-!
# The interrupt controllers and the interval timer (`arch/x86_64/pic.c`)

The functions of the source work on any machine with ports (`PortBus`).  The lemmas say what they do
to the devices of a PC (`Platform.bus`), whatever state these are in.

- `picRemap_eq`                : the vectors are moved, and the masks stay;
- `picSendEoi_eq`              : the ends of interrupt for a line;
- `pitInit_exact_iff`          : the frequencies that the timer can be set to;
- `masked_set`, `masked_clear` : a mask is set or cleared for one line alone;
- `maskCalls_masked`           : after any calls, the last one for a line decides.
-/

namespace Feudos
namespace Interrupt

open Devices

variable {σ : Type}

/-! ## `io.h` and `pic.h` -/

def ioWait (bus : PortBus σ) (s : σ) : Option σ :=
  bus.outb s 0x80 0

def pic1Cmd : UInt16 := 0x20
def pic1Data : UInt16 := 0x21
def pic2Cmd : UInt16 := 0xA0
def pic2Data : UInt16 := 0xA1

def pic1Offset : UInt8 := 0x20
def pic2Offset : UInt8 := 0x28

def icw1Icw4 : UInt8 := 0x01
def icw1Init : UInt8 := 0x10
def icw48086 : UInt8 := 0x01
def picEoi : UInt8 := 0x20

/-! ## The functions -/

/-- `pic_remap`. -/
def picRemap (bus : PortBus σ) (s : σ) : Option σ := do
  let (mask1, s) ← bus.inb s pic1Data
  let (mask2, s) ← bus.inb s pic2Data
  let s ← bus.outb s pic1Cmd (icw1Init ||| icw1Icw4)
  let s ← ioWait bus s
  let s ← bus.outb s pic2Cmd (icw1Init ||| icw1Icw4)
  let s ← ioWait bus s
  let s ← bus.outb s pic1Data pic1Offset
  let s ← ioWait bus s
  let s ← bus.outb s pic2Data pic2Offset
  let s ← ioWait bus s
  -- The slave is on line 2 of the master.
  let s ← bus.outb s pic1Data 0x04
  let s ← ioWait bus s
  let s ← bus.outb s pic2Data 0x02
  let s ← ioWait bus s
  let s ← bus.outb s pic1Data icw48086
  let s ← ioWait bus s
  let s ← bus.outb s pic2Data icw48086
  let s ← ioWait bus s
  let s ← bus.outb s pic1Data mask1
  bus.outb s pic2Data mask2

/-- `pic_send_eoi`. -/
def picSendEoi (bus : PortBus σ) (s : σ) (irq : UInt8) : Option σ := do
  let s ← if irq ≥ 8 then bus.outb s pic2Cmd picEoi else some s
  bus.outb s pic1Cmd picEoi

/-- `irq_line < 8 ? PIC1_DATA : PIC2_DATA`. -/
def maskPort (irqLine : UInt8) : UInt16 :=
  if irqLine < 8 then pic1Data else pic2Data

/-- `1 << line` for the line of that controller, as a byte. -/
def maskBit (irqLine : UInt8) : UInt8 :=
  let line := if irqLine < 8 then irqLine else irqLine - 8
  UInt8.ofNat (1 <<< line.toNat)

/-- `pic_set_mask`. -/
def picSetMask (bus : PortBus σ) (s : σ) (irqLine : UInt8) : Option σ := do
  let (value, s) ← bus.inb s (maskPort irqLine)
  bus.outb s (maskPort irqLine) (value ||| maskBit irqLine)

/-- `pic_clear_mask`. -/
def picClearMask (bus : PortBus σ) (s : σ) (irqLine : UInt8) : Option σ := do
  let (value, s) ← bus.inb s (maskPort irqLine)
  bus.outb s (maskPort irqLine) (value &&& ~~~maskBit irqLine)

/-- `pit_init`; a division by zero traps. -/
def pitInit (bus : PortBus σ) (s : σ) (freq : UInt32) : Option σ := do
  if freq = 0 then none else
  let divisor := 1193180 / freq
  let s ← bus.outb s 0x43 0x36
  let s ← bus.outb s 0x40 (divisor &&& 0xFF).toUInt8
  bus.outb s 0x40 ((divisor >>> 8) &&& 0xFF).toUInt8

/-! ## What they do to the devices -/

/-- A controller after its initialization words, with the mask it had before. -/
def remapped (mask base cascade : UInt8) : Chip :=
  { irr := ∅, isr := ∅, imr := mask, base := base, cascade := cascade, mode := 1, expects := [] }

/-- The devices of a PC that was just switched on. -/
def resetPlatform : Platform :=
  { pics := { master := remapped 0xFF 0x08 0x04, slave := remapped 0xFF 0x70 0x02 }
    keyboard := { queue := [], last := 0 }
    timer := { mode := 3, reload := 65536, low := none } }

/-- From every state of the controllers, also in the middle of an initialization or with lines in
service: the masks are kept, the vectors are 0x20 to 0x2F, the slave is on line 2, and nothing is
requested or in service. -/
theorem picRemap_eq (p : Platform) :
    picRemap Platform.bus p =
      some { p with
        pics :=
          { master := remapped p.pics.master.imr 0x20 0x04
            slave := remapped p.pics.slave.imr 0x28 0x02 } } := rfl

/-- The line of an interrupt request. -/
def irqOf : Line → UInt8
  | .master i => UInt8.ofNat i
  | .slave i => 8 + UInt8.ofNat i

/-- The slave is told first, and the master always. -/
theorem picSendEoi_eq (p : Platform) (l : Line) :
    picSendEoi Platform.bus p (irqOf l) = some { p with pics := p.pics.eoi l } := by
  cases l with
  | master i =>
      have hlow : ∀ i : Fin 8, ¬ irqOf (.master i) ≥ 8 := by decide
      rw [picSendEoi, if_neg (hlow i)]
      rfl
  | slave i =>
      have hhigh : ∀ i : Fin 8, irqOf (.slave i) ≥ 8 := by decide
      rw [picSendEoi, if_pos (hhigh i)]
      rfl

/-! ## The interval timer -/

/-- Sixteen bits, where zero stands for `2 ^ 16`. -/
def reloadOf (n : Nat) : Nat :=
  if n % 65536 = 0 then 65536 else n % 65536

/-- The two bytes written are the low sixteen bits of the divisor. -/
theorem pitInit_eq (p : Platform) {freq : UInt32} (hfreq : freq ≠ 0) :
    pitInit Platform.bus p freq =
      some { p with
        timer := { mode := 3, reload := reloadOf (1193180 / freq.toNat), low := none } } := by
  have hlow : ((1193180 / freq) &&& 0xFF).toUInt8.toNat = 1193180 / freq.toNat % 256 := by
    rw [UInt32.toNat_toUInt8, UInt32.toNat_and, UInt32.toNat_div]
    exact (congrArg (· % 256) (Nat.and_two_pow_sub_one_eq_mod _ 8)).trans (Nat.mod_mod _ _)
  have hhigh : (((1193180 / freq) >>> 8) &&& 0xFF).toUInt8.toNat =
      1193180 / freq.toNat / 256 % 256 := by
    rw [UInt32.toNat_toUInt8, UInt32.toNat_and, UInt32.toNat_shiftRight, UInt32.toNat_div,
      Nat.shiftRight_eq_div_pow]
    exact (congrArg (· % 256) (Nat.and_two_pow_sub_one_eq_mod _ 8)).trans (Nat.mod_mod _ _)
  have hboth : 1193180 / freq.toNat % 256 + 256 * (1193180 / freq.toNat / 256 % 256) =
      1193180 / freq.toNat % 65536 := by
    omega
  have hdata : pitInit Platform.bus p freq =
      some { p with
        timer := (Timer.data { p.timer with mode := 3, low := none }
          ((1193180 / freq) &&& 0xFF).toUInt8).data
            (((1193180 / freq) >>> 8) &&& 0xFF).toUInt8 } := by
    rw [pitInit, if_neg hfreq]
    rfl
  rw [hdata, Timer.data_data rfl, hlow, hhigh, hboth]
  rfl

/-- The timer gets the divisor itself exactly for the frequencies from 19 to 1193180 Hz: below them
it does not fit in sixteen bits, above them it is zero. -/
theorem pitInit_exact_iff (p : Platform) {freq : UInt32} (hfreq : freq ≠ 0) :
    (∃ p', pitInit Platform.bus p freq = some p' ∧ p'.timer.reload = 1193180 / freq.toNat) ↔
      19 ≤ freq.toNat ∧ freq.toNat ≤ 1193180 := by
  have hpos : 0 < freq.toNat := by
    rw [Nat.pos_iff_ne_zero]
    exact fun hzero => hfreq (UInt32.toNat_inj.1 hzero)
  have hreload : (∃ p', pitInit Platform.bus p freq = some p' ∧
      p'.timer.reload = 1193180 / freq.toNat) ↔
      reloadOf (1193180 / freq.toNat) = 1193180 / freq.toNat := by
    rw [pitInit_eq p hfreq]
    simp
  rw [hreload, reloadOf]
  generalize hq : 1193180 / freq.toNat = q
  have hle : 18 < freq.toNat ↔ q ≤ 66286 := by
    rw [← hq, Nat.div_le_iff_le_mul_add_pred hpos]
    omega
  have hone : freq.toNat ≤ 1193180 ↔ 1 ≤ q := by
    rw [← hq, Nat.le_div_iff_mul_le hpos, Nat.one_mul]
  have hsmall : 19 ≤ freq.toNat → q ≤ 62798 := fun h => by
    rw [← hq]
    exact Nat.div_le_div_left h (by decide)
  split <;> omega

theorem pitInit_exact_18 :
    (∃ p', pitInit Platform.bus resetPlatform 18 = some p' ∧
      p'.timer.reload = 1193180 / (18 : UInt32).toNat) ↔
      19 ≤ (18 : UInt32).toNat ∧ (18 : UInt32).toNat ≤ 1193180 :=
  pitInit_exact_iff resetPlatform (by decide)

/-! ## Masks -/

/-- Whether a line is masked. -/
def masked (p : Pics) : Line → Bool
  | .master i => p.master.imr.toNat.testBit i
  | .slave i => p.slave.imr.toNat.testBit i

/-- The mask with the bit of a line set or cleared. -/
def withMask (p : Pics) (l : Line) (f : UInt8 → UInt8) : Pics :=
  match l with
  | .master _ => { p with master := { p.master with imr := f p.master.imr } }
  | .slave _ => { p with slave := { p.slave with imr := f p.slave.imr } }

theorem maskBit_testBit : ∀ i j : Fin 8,
    (UInt8.ofNat (1 <<< (i : Nat))).toNat.testBit j = decide (i = j) ∧
      (~~~UInt8.ofNat (1 <<< (i : Nat))).toNat.testBit j = decide (i ≠ j) := by
  decide

theorem maskBit_irqOf (l : Line) :
    maskBit (irqOf l) = match l with
      | .master i => UInt8.ofNat (1 <<< (i : Nat))
      | .slave i => UInt8.ofNat (1 <<< (i : Nat)) := by
  have hall : ∀ i : Fin 8, maskBit (irqOf (.master i)) = UInt8.ofNat (1 <<< (i : Nat)) ∧
      maskBit (irqOf (.slave i)) = UInt8.ofNat (1 <<< (i : Nat)) := by
    decide
  cases l with
  | master i =>
      exact (hall i).1
  | slave i =>
      exact (hall i).2

theorem maskPort_irqOf (l : Line) :
    maskPort (irqOf l) = match l with
      | .master _ => pic1Data
      | .slave _ => pic2Data := by
  have hall : ∀ i : Fin 8, maskPort (irqOf (.master i)) = pic1Data ∧
      maskPort (irqOf (.slave i)) = pic2Data := by
    decide
  cases l with
  | master i =>
      exact (hall i).1
  | slave i =>
      exact (hall i).2

/-- On initialized controllers the two functions write the mask of the line's controller. -/
theorem picSetMask_eq {p : Platform} (hmaster : p.pics.master.expects = [])
    (hslave : p.pics.slave.expects = []) (l : Line) :
    picSetMask Platform.bus p (irqOf l) =
      some { p with pics := withMask p.pics l (fun v => v ||| maskBit (irqOf l)) } := by
  rw [picSetMask, maskPort_irqOf]
  cases l with
  | master i =>
      simp [Platform.bus, Platform.inb, Platform.outb, pic1Data, Chip.data, hmaster, withMask]
  | slave i =>
      simp [Platform.bus, Platform.inb, Platform.outb, pic2Data, Chip.data, hslave, withMask]

theorem picClearMask_eq {p : Platform} (hmaster : p.pics.master.expects = [])
    (hslave : p.pics.slave.expects = []) (l : Line) :
    picClearMask Platform.bus p (irqOf l) =
      some { p with pics := withMask p.pics l (fun v => v &&& ~~~maskBit (irqOf l)) } := by
  rw [picClearMask, maskPort_irqOf]
  cases l with
  | master i =>
      simp [Platform.bus, Platform.inb, Platform.outb, pic1Data, Chip.data, hmaster, withMask]
  | slave i =>
      simp [Platform.bus, Platform.inb, Platform.outb, pic2Data, Chip.data, hslave, withMask]

/-- Setting the mask of a line masks that line, and none of the fifteen others changes. -/
theorem masked_set (p : Pics) (l l' : Line) :
    masked (withMask p l (fun v => v ||| maskBit (irqOf l))) l' = (masked p l' || decide (l = l'))
    := by
  rw [maskBit_irqOf]
  cases l with
  | master i | slave i =>
      cases l' with
      | master j | slave j =>
          simp only [withMask, masked, UInt8.toNat_or, Nat.testBit_or, (maskBit_testBit i j).1,
            Line.master.injEq, Line.slave.injEq, reduceCtorEq, decide_false, Bool.or_false]

theorem masked_clear (p : Pics) (l l' : Line) :
    masked (withMask p l (fun v => v &&& ~~~maskBit (irqOf l))) l' =
      (masked p l' && decide (l ≠ l')) := by
  rw [maskBit_irqOf]
  cases l with
  | master i | slave i =>
      cases l' with
      | master j | slave j =>
          simp only [withMask, masked, UInt8.toNat_and, Nat.testBit_and, (maskBit_testBit i j).2,
            ne_eq, Line.master.injEq, Line.slave.injEq, reduceCtorEq, not_false_eq_true,
            decide_true, Bool.and_true]

/-! ## Calls one after another -/

/-- A call of `pic_set_mask` (`true`) or of `pic_clear_mask` for a line. -/
abbrev MaskCall := Bool × Line

def MaskCall.run (bus : PortBus σ) (s : σ) (c : MaskCall) : Option σ :=
  if c.1 then picSetMask bus s (irqOf c.2) else picClearMask bus s (irqOf c.2)

def maskCalls (bus : PortBus σ) (s : σ) (calls : List MaskCall) : Option σ :=
  calls.foldlM (MaskCall.run bus) s

/-- The devices without the masks. -/
def unmask (p : Platform) : Platform :=
  { p with
    pics :=
      { master := { p.pics.master with imr := 0 }
        slave := { p.pics.slave with imr := 0 } } }

theorem unmask_withMask (p : Platform) (l : Line) (f : UInt8 → UInt8) :
    unmask { p with pics := withMask p.pics l f } = unmask p := by
  cases l <;> rfl

/-- One call decides for its line. -/
theorem maskCall_masked {p : Platform} (hmaster : p.pics.master.expects = [])
    (hslave : p.pics.slave.expects = []) (c : MaskCall) :
    ∃ p', MaskCall.run Platform.bus p c = some p' ∧ unmask p' = unmask p ∧
      ∀ l, masked p'.pics l = if c.2 = l then c.1 else masked p.pics l := by
  rcases c with ⟨set, line⟩
  cases set with
  | true =>
      refine ⟨_, picSetMask_eq hmaster hslave line, unmask_withMask p line _, fun l => ?_⟩
      rw [masked_set]
      by_cases hl : line = l <;> simp [hl]
  | false =>
      refine ⟨_, picClearMask_eq hmaster hslave line, unmask_withMask p line _, fun l => ?_⟩
      rw [masked_clear]
      by_cases hl : line = l <;> simp [hl]

theorem unmask_expects {p p' : Platform} (h : unmask p' = unmask p) :
    p'.pics.master.expects = p.pics.master.expects ∧
      p'.pics.slave.expects = p.pics.slave.expects := by
  have hmaster : (unmask p').pics.master.expects = (unmask p).pics.master.expects := by rw [h]
  have hslave : (unmask p').pics.slave.expects = (unmask p).pics.slave.expects := by rw [h]
  exact ⟨hmaster, hslave⟩

/-- The value of the last call for a line, if there is one. -/
def lastCall (calls : List MaskCall) (l : Line) : Option Bool :=
  ((calls.filter (fun c => c.2 = l)).getLast?).map Prod.fst

/-- On initialized controllers, after any calls of the two functions: a line is masked as the last
call for it says, or as it was; and nothing else about the devices has changed. -/
theorem maskCalls_masked {p : Platform} (hmaster : p.pics.master.expects = [])
    (hslave : p.pics.slave.expects = []) (calls : List MaskCall) :
    ∃ p', maskCalls Platform.bus p calls = some p' ∧ unmask p' = unmask p ∧
      ∀ l, masked p'.pics l = (lastCall calls l).getD (masked p.pics l) := by
  induction calls using List.reverseRecOn with
  | nil =>
      exact ⟨p, rfl, rfl, fun l => rfl⟩
  | append_singleton calls c ih =>
      rcases ih with ⟨p₁, hcalls, hsame, hmasks⟩
      rcases unmask_expects hsame with ⟨hmaster₁, hslave₁⟩
      obtain ⟨p₂, hcall, hsame₂, hmask⟩ :=
        maskCall_masked (hmaster₁.trans hmaster) (hslave₁.trans hslave) c
      refine ⟨p₂, ?_, hsame₂.trans hsame, fun l => ?_⟩
      · rw [maskCalls] at hcalls ⊢
        rw [List.foldlM_append, hcalls]
        simp only [List.foldlM_cons, List.foldlM_nil, Option.bind_eq_bind, Option.bind_some, hcall]
        rfl
      · rw [hmask, hmasks, lastCall, lastCall, List.filter_append]
        by_cases hl : c.2 = l
        · simp [hl]
        · simp [hl]

theorem maskCalls_masked_timer :
    ∃ p', maskCalls Platform.bus resetPlatform [(true, .master 0), (false, .master 0)] = some p' ∧
      unmask p' = unmask resetPlatform ∧
      ∀ l, masked p'.pics l = (lastCall [(true, .master 0), (false, .master 0)] l).getD
        (masked resetPlatform.pics l) :=
  maskCalls_masked rfl rfl [(true, .master 0), (false, .master 0)]

end Interrupt
end Feudos
