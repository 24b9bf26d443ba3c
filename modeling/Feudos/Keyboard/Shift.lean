import Mathlib.Logic.Function.Basic
import Feudos.Keyboard.Driver

/-!
# The shift keys

The driver has one flag for two keys.  Here the keyboard itself is modelled: which keys are down,
and the scancodes of set 1 that each press and release sends.

- `Desk`         : the keyboard and the kernel it is connected to;
- `Tracks`       : `shift_held` says whether a shift key is down, so the tables are chosen rightly;
- `KeepsShift`   : the events after which this is still so;
- `tracks_shift` : it is so all along a sequence of events exactly when all of them are such.
-/

namespace Feudos

open Vga GuardedRun

/-! ## Keys and what they send -/

/-- A key, by its code in set 1: sent as it is, or behind the prefix `0xE0`.  Keyboards also send
the prefixed codes of the shift keys around those of other keys. -/
inductive Key
  | plain (code : Fin 128)
  | extended (code : Fin 128)
  deriving DecidableEq

namespace Key

def code : Key → Fin 128
  | .plain code => code
  | .extended code => code

def lshift : Key := .plain 0x2A
def rshift : Key := .plain 0x36

end Key

inductive KeyEvent
  | press (key : Key)
  | release (key : Key)
  deriving DecidableEq

namespace KeyEvent

def key : KeyEvent → Key
  | .press key => key
  | .release key => key

def pressed : KeyEvent → Bool
  | .press _ => true
  | .release _ => false

/-- The last byte an event sends: a release has bit 7 set. -/
def scancode (e : KeyEvent) : UInt8 :=
  if e.pressed then UInt8.ofNat e.key.code else UInt8.ofNat e.key.code ||| 0x80

def scancodes (e : KeyEvent) : List UInt8 :=
  match e.key with
  | .plain _ => [e.scancode]
  | .extended _ => [0xE0, e.scancode]

end KeyEvent

/-! ## The keyboard and the kernel -/

/-- The kernel, and which keys are down. -/
structure Desk where
  kernel : Kernel
  down : Key → Bool

namespace Desk

/-- At boot all keys are up. -/
def boot (past : Nat → UInt8) (terminal : Terminal) : Desk :=
  { kernel := Kernel.boot past terminal, down := fun _ => false }

/-- A key goes down or up, and the kernel handles what it sends. -/
def event (d : Desk) (e : KeyEvent) : Desk :=
  { kernel := e.scancodes.foldl kbdHandleScancode d.kernel
    down := Function.update d.down e.key e.pressed }

/-- At least one of the two shift keys is down. -/
def shiftDown (d : Desk) : Bool :=
  d.down .lshift || d.down .rshift

/-- A key that goes down was up, and a key that goes up was down. -/
def Alternates (d : Desk) (e : KeyEvent) : Prop :=
  d.down e.key = !e.pressed

instance (d : Desk) (e : KeyEvent) : Decidable (d.Alternates e) :=
  inferInstanceAs (Decidable (_ = _))

end Desk

/-! ## The flag and the keys -/

/-- The code of a shift key. -/
def IsShift (code : Fin 128) : Prop := code = 0x2A ∨ code = 0x36

instance (code : Fin 128) : Decidable (IsShift code) := inferInstanceAs (Decidable (_ ∨ _))

/-- The character of a key in a table, if it has one. -/
def characterIn (table : List UInt8) (code : Fin 128) : Option UInt8 :=
  if table.getD code 0 ≠ 0 then some (table.getD code 0) else none

/-- `shift_held` says whether a shift key is down, and a character key that is pressed now is
decoded with the shifted table exactly in that case. -/
def Tracks (d : Desk) : Prop :=
  d.kernel.shiftHeld = d.shiftDown ∧
    ∀ code, ¬ IsShift code →
      decode d.kernel.shiftHeld (KeyEvent.scancode (.press (.plain code))) =
        characterIn (if d.shiftDown then scancodeAsciiShift else scancodeAscii) code

/-- The events that the flag follows: no shift key goes up while the other is down, and a prefixed
code of a shift key says what the shift keys are. -/
def KeepsShift (d : Desk) : KeyEvent → Prop
  | .press (.plain _) => True
  | .release (.plain code) =>
      (code = 0x2A → d.down .rshift = false) ∧ (code = 0x36 → d.down .lshift = false)
  | .press (.extended code) => IsShift code → d.shiftDown = true
  | .release (.extended code) => IsShift code → d.shiftDown = false

instance (d : Desk) : (e : KeyEvent) → Decidable (KeepsShift d e)
  | .press (.plain _) => .isTrue trivial
  | .release (.plain _) => inferInstanceAs (Decidable (_ ∧ _))
  | .press (.extended _) => inferInstanceAs (Decidable (_ → _))
  | .release (.extended _) => inferInstanceAs (Decidable (_ → _))

theorem shiftAfter_press : ∀ (held : Bool) (code : Fin 128),
    shiftAfter held (UInt8.ofNat code) = if IsShift code then true else held := by
  decide

theorem shiftAfter_release : ∀ (held : Bool) (code : Fin 128),
    shiftAfter held (UInt8.ofNat code ||| 0x80) = if IsShift code then false else held := by
  decide

theorem shiftAfter_prefix : ∀ held : Bool, shiftAfter held 0xE0 = held := by
  decide

theorem decode_press : ∀ (held : Bool) (code : Fin 128), ¬ IsShift code →
    decode held (UInt8.ofNat code) =
      characterIn (if held then scancodeAsciiShift else scancodeAscii) code := by
  decide +kernel

/-- An event sets the flag when it has the code of a shift key, prefixed or not. -/
theorem event_shiftHeld (d : Desk) (e : KeyEvent) :
    (d.event e).kernel.shiftHeld =
      if IsShift e.key.code then e.pressed else d.kernel.shiftHeld := by
  have hlast : shiftAfter d.kernel.shiftHeld e.scancode =
      if IsShift e.key.code then e.pressed else d.kernel.shiftHeld := by
    cases e with
    | press key =>
        exact shiftAfter_press _ _
    | release key =>
        exact shiftAfter_release _ _
  show (e.scancodes.foldl kbdHandleScancode d.kernel).shiftHeld = _
  rw [foldl_shiftHeld]
  unfold KeyEvent.scancodes
  split
  · exact hlast
  · -- The prefix 0xE0 looks like the release of key 0x60, which is no shift key.
    rw [List.foldl_cons, shiftAfter_prefix]
    exact hlast

theorem tracks_iff (d : Desk) : Tracks d ↔ d.kernel.shiftHeld = d.shiftDown := by
  constructor
  · intro h
    exact h.1
  · intro h
    refine ⟨h, fun code hcode => ?_⟩
    rw [h]
    exact decode_press d.shiftDown code hcode

theorem event_shiftDown (d : Desk) (e : KeyEvent) :
    (d.event e).shiftDown =
      ((if e.key = .lshift then e.pressed else d.down .lshift) ||
        if e.key = .rshift then e.pressed else d.down .rshift) := by
  simp only [Desk.shiftDown, Desk.event, Function.update_apply, eq_comm]

/-- A plain code: one of the two shift keys, or another key. -/
theorem tracks_plain {d : Desk} {code : Fin 128} (h : d.kernel.shiftHeld = d.shiftDown) :
    Tracks (d.event (.press (.plain code))) ∧
      (Tracks (d.event (.release (.plain code))) ↔ KeepsShift d (.release (.plain code))) := by
  simp only [tracks_iff, event_shiftHeld, event_shiftDown, KeyEvent.key, KeyEvent.pressed, Key.code,
    Key.lshift, Key.rshift, Key.plain.injEq, KeepsShift]
  -- The flag becomes what the event says of its own key; the other key is not asked.
  by_cases hleft : code = 0x2A
  · subst hleft
    simp [IsShift]
  · by_cases hright : code = 0x36
    · subst hright
      simp [IsShift]
    · simp [IsShift, hleft, hright, h, Desk.shiftDown, Key.lshift, Key.rshift]

/-- A prefixed code changes no shift key, but it may change the flag. -/
theorem tracks_extended {d : Desk} {code : Fin 128} (h : d.kernel.shiftHeld = d.shiftDown) :
    (Tracks (d.event (.press (.extended code))) ↔ KeepsShift d (.press (.extended code))) ∧
      (Tracks (d.event (.release (.extended code))) ↔
        KeepsShift d (.release (.extended code))) := by
  have hdown : (d.down .lshift || d.down .rshift) = d.shiftDown := rfl
  have hleft : Key.extended code ≠ .lshift := by simp [Key.lshift]
  have hright : Key.extended code ≠ .rshift := by simp [Key.rshift]
  simp only [tracks_iff, event_shiftHeld, event_shiftDown, KeyEvent.key, KeyEvent.pressed, Key.code,
    KeepsShift, hleft, hright, if_false, hdown]
  by_cases hcode : IsShift code
  · simp [hcode, eq_comm (a := true), eq_comm (a := false)]
  · simp [hcode, h]

theorem tracks_event (d : Desk) (e : KeyEvent) (h : Tracks d) :
    Tracks (d.event e) ↔ KeepsShift d e := by
  rw [tracks_iff] at h
  cases e with
  | press key =>
      cases key with
      | plain code =>
          exact iff_of_true (tracks_plain h).1 trivial
      | extended code =>
          exact (tracks_extended h).1
  | release key =>
      cases key with
      | plain code =>
          exact (tracks_plain h).2
      | extended code =>
          exact (tracks_extended h).2

/-! ## Sequences of events -/

/-- All along a sequence of key events from boot the flag says whether a shift key is down, and the
character keys are decoded accordingly, exactly when every event is one that the flag follows. -/
theorem tracks_shift (past : Nat → UInt8) (terminal : Terminal) (evs : List KeyEvent) :
    (∀ pre, pre <+: evs → Tracks (pre.foldl Desk.event (Desk.boot past terminal))) ↔
      Guarded Desk.event KeepsShift (Desk.boot past terminal) evs :=
  always_iff_guarded (fun d e h => (tracks_event d e h).2) (fun _ h => h)
    (fun d e h hbad htracks => hbad ((tracks_event d e h).1 htracks)) ((tracks_iff _).2 rfl)

/-- Both shift keys are pressed, and the left one is released: the right one is down, but
`shift_held` is not set, and the next `a` is decoded as `a`. -/
theorem shift_lost :
    let evs : List KeyEvent := [.press .lshift, .press .rshift, .release .lshift]
    let start := Desk.boot (fun _ => 0) (started vga640 (fun _ => 0) 0x0F)
    Guarded Desk.event Desk.Alternates start evs ∧
      (evs.foldl Desk.event start).shiftDown = true ∧
      (evs.foldl Desk.event start).kernel.shiftHeld = false ∧
      ¬ ∀ pre, pre <+: evs → Tracks (pre.foldl Desk.event start) := by
  intro evs start
  have hdown : (evs.foldl Desk.event start).shiftDown = true := by decide +kernel
  have hheld : (evs.foldl Desk.event start).kernel.shiftHeld = false := by decide +kernel
  refine ⟨by decide +kernel, hdown, hheld, fun hall => ?_⟩
  have hend := (hall evs (List.prefix_refl evs)).1
  rw [hdown, hheld] at hend
  exact absurd hend (by decide)

end Feudos
