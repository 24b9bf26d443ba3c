import Feudos.Interrupt.Boot

/-!
# Keys while the kernel boots

`PowerOn.run` lets the keys come from `ksh_run` on, but they come while `kernel_main` runs too.

- `pressing`     : the ports, with the keyboard at work between the accesses;
- `Pressed`      : the keys may as well come behind a piece of the program;
- `boot_pressed` : those before `pic_remap` writes ICW1 come to the same as keys before
  `kernel_main`, and the others to the same as keys behind it.
-/

namespace Feudos
namespace Interrupt

open Devices Vga

/-! ## The keyboard between the accesses -/

/-- The ports of a PC on which the bytes `keys k` come from the keyboard before access `k`. -/
def pressing (keys : Nat → List UInt8) : PortBus (Nat × Platform) where
  outb s port v :=
    (((keys s.1).foldl Platform.press s.2).outb port v).map (fun p => (s.1 + 1, p))
  inb s port :=
    (((keys s.1).foldl Platform.press s.2).inb port).map (fun x => (x.1, s.1 + 1, x.2))

/-- The bytes that come before `n` accesses, from access `k` on. -/
def keysFrom (keys : Nat → List UInt8) (k n : Nat) : List UInt8 :=
  (List.range' k n).flatMap keys

/-- With `n` accesses, `f` does what `g` does without the keys; they may as well come behind it. -/
def Pressed (keys : Nat → List UInt8) (f : Nat × Platform → Option (Nat × Platform))
    (g : Platform → Option Platform) (n : Nat) : Prop :=
  ∀ k bs p, f (k, bs.foldl Platform.press p) = (g p).map (fun p =>
    (k + n, (bs ++ keysFrom keys k n).foldl Platform.press p))

variable {keys : Nat → List UInt8} {f f' : Nat × Platform → Option (Nat × Platform)}
  {g g' : Platform → Option Platform} {n n' : Nat} {port : UInt16}

theorem keysFrom_add (keys : Nat → List UInt8) (k n n' : Nat) :
    keysFrom keys k (n + n') = keysFrom keys k n ++ keysFrom keys (k + n) n' := by
  rw [keysFrom, ← List.range'_append_1, List.flatMap_append]
  rfl

theorem keysFrom_one (keys : Nat → List UInt8) (k : Nat) : keysFrom keys k 1 = keys k := by
  simp [keysFrom]

theorem Pressed.bind (h : Pressed keys f g n) (h' : Pressed keys f' g' n') :
    Pressed keys (fun s => f s >>= f') (fun p => g p >>= g') (n + n') := by
  intro k bs p
  dsimp only
  rw [h k bs p, Option.bind_eq_bind, Option.bind_eq_bind, Option.bind_map, Option.map_bind]
  refine Option.bind_congr (fun p' _ => ?_)
  rw [Function.comp_apply, Function.comp_apply, h', List.append_assoc, ← keysFrom_add,
    Nat.add_assoc]

theorem Pressed.outb (hport : port ≠ 0x20) (v : UInt8) :
    Pressed keys (fun s => (pressing keys).outb s port v) (fun p => Platform.bus.outb p port v)
      1 := by
  intro k bs p
  simp only [pressing, ← List.foldl_append, keysFrom_one]
  rw [Platform.outb_presses hport, Option.map_map]
  rfl

theorem Pressed.inb (hport : port ≠ 0x60) {F : UInt8 → Nat × Platform → Option (Nat × Platform)}
    {G : UInt8 → Platform → Option Platform} (h : ∀ v, Pressed keys (F v) (G v) n) :
    Pressed keys (fun s => (pressing keys).inb s port >>= fun x => F x.1 x.2)
      (fun p => Platform.bus.inb p port >>= fun x => G x.1 x.2) (1 + n) := by
  intro k bs p
  simp only [pressing, ← List.foldl_append, Option.bind_eq_bind]
  rw [Platform.inb_presses hport, Option.map_map, Option.bind_map, Option.map_bind]
  refine Option.bind_congr (fun x _ => ?_)
  rw [Function.comp_apply, Function.comp_apply, Function.comp_apply, h, keysFrom_add, keysFrom_one,
    List.append_assoc, Nat.add_assoc]

/-- A command to the master may forget the keys before it. -/
theorem pressing_command (k : Nat) (bs : List UInt8) (p : Platform) (v : UInt8) :
    (pressing keys).outb (k, bs.foldl Platform.press p) 0x20 v =
      (Platform.bus.outb ((bs ++ keys k).foldl Platform.press p) 0x20 v).map (fun p =>
        (k + 1, [].foldl Platform.press p)) := by
  simp only [pressing, ← List.foldl_append]
  rfl

theorem maskPort_ne (irqLine : UInt8) : maskPort irqLine ≠ 0x20 ∧ maskPort irqLine ≠ 0x60 := by
  unfold maskPort
  split <;> decide

theorem picSetMask_pressed (irqLine : UInt8) :
    Pressed keys (picSetMask (pressing keys) · irqLine) (picSetMask Platform.bus · irqLine) 2 :=
  Pressed.inb
    (F := fun value s => (pressing keys).outb s (maskPort irqLine) (value ||| maskBit irqLine))
    (G := fun value p => Platform.bus.outb p (maskPort irqLine) (value ||| maskBit irqLine))
    (maskPort_ne irqLine).2 (fun _ => Pressed.outb (maskPort_ne irqLine).1 _)

theorem picClearMask_pressed (irqLine : UInt8) :
    Pressed keys (picClearMask (pressing keys) · irqLine) (picClearMask Platform.bus · irqLine) 2 :=
  Pressed.inb
    (F := fun value s => (pressing keys).outb s (maskPort irqLine) (value &&& ~~~maskBit irqLine))
    (G := fun value p => Platform.bus.outb p (maskPort irqLine) (value &&& ~~~maskBit irqLine))
    (maskPort_ne irqLine).2 (fun _ => Pressed.outb (maskPort_ne irqLine).1 _)

theorem pitInit_pressed (freq : UInt32) :
    Pressed keys (pitInit (pressing keys) · freq) (pitInit Platform.bus · freq) 3 := by
  by_cases hfreq : freq = 0
  · -- The division by zero ends both.
    intro k bs p
    simp only [pitInit, if_pos hfreq]
    rfl
  · simp only [pitInit, if_neg hfreq]
    exact (Pressed.outb (by decide) _).bind
      ((Pressed.outb (by decide) _).bind (Pressed.outb (by decide) _))

theorem ioWait_pressed : Pressed keys (ioWait (pressing keys)) (ioWait Platform.bus) 1 :=
  Pressed.outb (by decide) _

/-- The masks are read as they are. -/
theorem inb_masks (bs : List UInt8) (p : Platform) :
    Platform.bus.inb (bs.foldl Platform.press p) pic1Data =
        some (p.pics.master.imr, bs.foldl Platform.press p) ∧
      Platform.bus.inb (bs.foldl Platform.press p) pic2Data =
        some (p.pics.slave.imr, bs.foldl Platform.press p) :=
  ⟨@Platform.inb_presses pic1Data (by decide) p bs, @Platform.inb_presses pic2Data (by decide) p bs⟩

theorem pressing_masks (k : Nat) (bs : List UInt8) (p : Platform) :
    (pressing keys).inb (k, bs.foldl Platform.press p) pic1Data =
        some (p.pics.master.imr, k + 1, (bs ++ keys k).foldl Platform.press p) ∧
      (pressing keys).inb (k, bs.foldl Platform.press p) pic2Data =
        some (p.pics.slave.imr, k + 1, (bs ++ keys k).foldl Platform.press p) := by
  rcases inb_masks (bs ++ keys k) p with ⟨hmaster, hslave⟩
  have hmaster' := congrArg (Option.map fun x => (x.1, k + 1, x.2)) hmaster
  have hslave' := congrArg (Option.map fun x => (x.1, k + 1, x.2)) hslave
  simp only [pressing, ← List.foldl_append]
  exact ⟨hmaster', hslave'⟩

/-- Behind the two masks a command to the master forgets the requests so far. -/
theorem Pressed.start {F : UInt8 → UInt8 → Nat × Platform → Option (Nat × Platform)}
    {G : UInt8 → UInt8 → Platform → Option Platform} (h : ∀ v w, Pressed keys (F v w) (G v w) n)
    (v : UInt8) (p : Platform) :
    ((pressing keys).inb (0, p) pic1Data >>= fun x => (pressing keys).inb x.2 pic2Data >>= fun y =>
        (pressing keys).outb y.2 0x20 v >>= F x.1 y.1) =
      (Platform.bus.inb ((keysFrom keys 0 3).foldl Platform.press p) pic1Data >>= fun x =>
        Platform.bus.inb x.2 pic2Data >>= fun y =>
          Platform.bus.outb y.2 0x20 v >>= G x.1 y.1).map (fun p =>
            (3 + n, (keysFrom keys 3 n).foldl Platform.press p)) := by
  -- Three accesses come up to the command: the two reads and the command itself.
  have hstart : (0, p) = (0, [].foldl Platform.press p) := rfl
  have hthree : keysFrom keys 0 3 = [] ++ keys 0 ++ keys 1 ++ keys 2 := by
    simp [keysFrom, List.range']
  rw [hstart, hthree, (pressing_masks 0 [] p).1, (inb_masks _ p).1]
  simp only [Option.bind_eq_bind, Option.bind_some]
  rw [(pressing_masks (0 + 1) _ p).2, (inb_masks _ p).2]
  simp only [Option.bind_some]
  rw [pressing_command, Option.bind_map, Option.map_bind]
  refine Option.bind_congr (fun q _ => ?_)
  exact h p.pics.master.imr p.pics.slave.imr 3 [] q

/-- `pic_remap` forgets the requests of the keys before ICW1, and those behind it may as well come
behind `pic_remap`. -/
theorem picRemap_pressed (p : Platform) :
    picRemap (pressing keys) (0, p) =
      (picRemap Platform.bus ((keysFrom keys 0 3).foldl Platform.press p)).map (fun p =>
        (20, (keysFrom keys 3 17).foldl Platform.press p)) := by
  have hout : ∀ (port : UInt16) (v : UInt8), port ≠ 0x20 →
      Pressed keys (fun s => (pressing keys).outb s port v)
        (fun p => Platform.bus.outb p port v) 1 := fun port v hport => Pressed.outb hport v
  -- ICW1 for the slave, the other three for both, and the masks, with a wait between them.
  exact Pressed.start (fun mask1 mask2 =>
    ioWait_pressed.bind ((hout pic2Cmd (icw1Init ||| icw1Icw4) (by decide)).bind
      (ioWait_pressed.bind ((hout pic1Data pic1Offset (by decide)).bind
      (ioWait_pressed.bind ((hout pic2Data pic2Offset (by decide)).bind
      (ioWait_pressed.bind ((hout pic1Data 0x04 (by decide)).bind
      (ioWait_pressed.bind ((hout pic2Data 0x02 (by decide)).bind
      (ioWait_pressed.bind ((hout pic1Data icw48086 (by decide)).bind
      (ioWait_pressed.bind ((hout pic2Data icw48086 (by decide)).bind
      (ioWait_pressed.bind ((hout pic1Data mask1 (by decide)).bind
        (hout pic2Data mask2 (by decide)))))))))))))))))) (icw1Init ||| icw1Icw4) p

/-! ## From `kernel_main` to `ksh_run` -/

theorem initPorts_pressed (p : Platform) :
    initPorts (pressing keys) (0, p) =
      (initPorts Platform.bus ((keysFrom keys 0 3).foldl Platform.press p)).map (fun p =>
        (29, (keysFrom keys 3 26).foldl Platform.press p)) := by
  have hrest : Pressed keys _ _ (3 + (2 + (2 + 2))) :=
    (pitInit_pressed timerFreq.toUInt32).bind ((picSetMask_pressed 0).bind
      ((picClearMask_pressed 0).bind (picClearMask_pressed 1)))
  have hall : keysFrom keys 3 26 = keysFrom keys 3 17 ++ keysFrom keys 20 9 :=
    keysFrom_add keys 3 17 9
  simp only [initPorts, Option.bind_eq_bind, Option.map_bind, picRemap_pressed, Option.bind_map]
  refine Option.bind_congr (fun q _ => ?_)
  rw [hall, Function.comp_apply, Function.comp_apply]
  exact hrest 20 (keysFrom keys 3 17) q

/-- `PowerOn.boot` with the keyboard at work. -/
def PowerOn.bootPressed (m : PowerOn) (keys : Nat → List UInt8) : Option System := do
  let s ← kernelMain (pressing keys) m.isr m.framebuffer m.pixels m.cpu (0, m.platform)
  some
    { shell := Shell.start m.past s.terminal m.line
      machine := { m.machine with ticks := 0 }
      platform := s.ports.2
      mode := .running }

/-- Keys at the start of a run. -/
theorem press_run (s : System) (bs : List UInt8) :
    (bs.map SysAction.press).foldlM System.act s =
      some { s with platform := bs.foldl Platform.press s.platform } := by
  induction bs generalizing s with
  | nil =>
      rfl
  | cons b bs ih =>
      rw [List.map_cons, List.foldlM_cons, List.foldl_cons]
      exact ih _

/-- The keys that come before `pic_remap` writes ICW1 are as good as keys before `kernel_main`, and
those that come behind it, up to `sti`, as keys at the start of a run. -/
theorem boot_pressed (m : PowerOn) (keys : Nat → List UInt8) :
    m.bootPressed keys =
      ({ m with platform := (keysFrom keys 0 3).foldl Platform.press m.platform } : PowerOn).run
        ((keysFrom keys 3 26).map .press) := by
  rw [PowerOn.run_eq, press_run, PowerOn.bootPressed, kernelMain_ports, initPorts_pressed,
    initPorts_eq]
  simp only [Option.map_some, Option.bind_eq_bind, Option.bind_some, PowerOn.system]

end Interrupt
end Feudos
