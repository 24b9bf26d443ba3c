import Feudos.Library.Loop
import Feudos.Vga.Font

/-!
# The framebuffer terminal (`kernel/vga.c`)

The driver's static variables become a `Terminal`, and every function of the file that draws or
moves the cursor becomes a function on it.  The state is grouped by who writes what:

- `Geometry` : what `vga_init` computes from the bootloader's framebuffer, constant afterwards;
- `Screen`   : the framebuffer words, written by the drawing functions only;
- `LineLen`  : the 8-bit array `line_len`.

`Screen` and `LineLen` also carry a *trace*: the accesses made so far, latest first.  No function
reads a trace; the safety results are about it.

Sizes and cursor fields are natural numbers, cut to the width of their C type at each assignment
(`u16`, `u64`).  Pixel indices are computed modulo `2 ^ 64`, as `uint64_t` arithmetic does.
-/

namespace Feudos
namespace Vga

open CountedLoop

/-! ## Machine integers -/

/-- Conversion to `uint16_t`. -/
def u16 (n : Nat) : Nat := n % 2 ^ 16

/-- Conversion to `uint64_t`. -/
def u64 (n : Nat) : Nat := n % 2 ^ 64

/-- Conversion of a `uint64_t` to `int`. -/
def toInt (n : Nat) : Int := Int.bmod n (2 ^ 32)

/-- The value of a `char`, which is signed on x86-64. -/
def signedChar (c : UInt8) : Int :=
  if c.toNat < 128 then c.toNat else (c.toNat : Int) - 256

/-! ## The framebuffer and its geometry -/

def glyphW : Nat := 8
def glyphH : Nat := 8
def maxRows : Nat := 256

/-- The fields of `struct limine_framebuffer` that the driver reads: sizes in pixels, and the
length of a pixel row in bytes.  The rows lie in the address space. -/
structure Framebuffer where
  width : Nat
  height : Nat
  pitch : Nat
  addressable : pitch * height ≤ 2 ^ 64

/-- A 640x480 framebuffer without padding. -/
def vga640 : Framebuffer :=
  { width := 640, height := 480, pitch := 2560, addressable := by decide }

/-- The static variables that `vga_init` sets. -/
structure Geometry where
  framebuffer : Framebuffer
  pitchPx : Nat
  vgaWidth : Int
  vgaHeight : Int

/-- `vga_init`: only the number of rows is limited. -/
def vgaInit (gFramebuffer : Framebuffer) : Geometry :=
  let vgaHeight := toInt (gFramebuffer.height / glyphH)
  { framebuffer := gFramebuffer
    pitchPx := gFramebuffer.pitch / 4
    vgaWidth := toInt (gFramebuffer.width / glyphW)
    vgaHeight := if vgaHeight > maxRows then maxRows else vgaHeight }

/-! ## Colours -/

def vgaPalette : List UInt32 :=
  [ 0x000000, 0x0000AA, 0x00AA00, 0x00AAAA,
    0xAA0000, 0xAA00AA, 0xAA5500, 0xAAAAAA,
    0x555555, 0x5555FF, 0x55FF55, 0x55FFFF,
    0xFF5555, 0xFF55FF, 0xFFFF55, 0xFFFFFF ]

def fgRgb (color : UInt8) : UInt32 :=
  vgaPalette.getD (color.toNat % 16) 0

def bgRgb (color : UInt8) : UInt32 :=
  vgaPalette.getD (color.toNat / 16 % 16) 0

/-! ## Pixel memory -/

/-- An access of the drawing functions: a call of `draw_cell`, an index into `font8x8_basic`, or
the index of a framebuffer word. -/
inductive Access
  | cell (col row : Nat)
  | font (i : Nat)
  | word (i : Nat)
  deriving DecidableEq, Repr

/-- The framebuffer, word by word, and the accesses made so far. -/
structure Screen where
  fb : Nat → UInt32
  trace : List Access

namespace Screen

def note (s : Screen) (a : Access) : Screen :=
  { s with trace := a :: s.trace }

/-- `fb[i] = v`. -/
def store (s : Screen) (i : Nat) (v : UInt32) : Screen :=
  { fb := Function.update s.fb (u64 i) v
    trace := .word (u64 i) :: s.trace }

/-- `fb[dst] = fb[src]`. -/
def copy (s : Screen) (dst src : Nat) : Screen :=
  (s.note (.word (u64 src))).store dst (s.fb (u64 src))

end Screen

/-- `draw_cell`: the 8x8 block at text column `col` and text row `row`. -/
def drawCell (g : Geometry) (s : Screen) (col row : Nat) (c color : UInt8) : Screen :=
  let fg := fgRgb color
  let bg := bgRgb color
  let s := (s.note (.cell col row)).note (.font c.toNat)
  let px0 := col * glyphW
  let py0 := row * glyphH
  range 0 glyphH (fun y s =>
    -- The lowest bit of a row of the glyph is its leftmost pixel.
    let bits := glyph c.toNat y
    range 0 glyphW (fun x s =>
      s.store ((py0 + y) * g.pitchPx + (px0 + x))
        (if bits.toNat &&& (1 <<< x) ≠ 0 then fg else bg)) s) s

/-- `clear_cell`. -/
def clearCell (g : Geometry) (s : Screen) (col row : Nat) (color : UInt8) : Screen :=
  drawCell g s col row 32 color

/-! ## Line lengths -/

/-- The array `line_len` and the rows accessed so far. -/
structure LineLen where
  len : Nat → UInt8
  trace : List Nat

namespace LineLen

/-- A read of `line_len[r]`. -/
def touch (l : LineLen) (r : Nat) : LineLen :=
  { l with trace := r :: l.trace }

/-- `line_len[r] = v`, which keeps the low eight bits of `v`. -/
def store (l : LineLen) (r v : Nat) : LineLen :=
  { len := Function.update l.len r (UInt8.ofNat v)
    trace := r :: l.trace }

end LineLen

/-! ## The terminal -/

structure Terminal where
  geom : Geometry
  screen : Screen
  lineLen : LineLen
  cursorRow : Nat
  cursorColumn : Nat
  textColor : UInt8

/-- The state after `vga_init`, over framebuffer memory `fb`: the other static variables still
have their initial values. -/
def Terminal.init (gFramebuffer : Framebuffer) (fb : Nat → UInt32) : Terminal :=
  { geom := vgaInit gFramebuffer
    screen := { fb := fb, trace := [] }
    lineLen := { len := fun _ => 0, trace := [] }
    cursorRow := 0
    cursorColumn := 0
    textColor := 0x0F }

/-- `vga_change_text_color`. -/
def vgaChangeTextColor (t : Terminal) (col : UInt8) : Terminal :=
  { t with textColor := col }

/-- `vga_move_cursor`; the hardware cursor (`vga_set_cursor`) is a stub in the source. -/
def vgaMoveCursor (t : Terminal) (x y : Nat) : Terminal :=
  { t with cursorRow := y, cursorColumn := x }

/-- `vga_clear_screen`. -/
def vgaClearScreen (t : Terminal) (color : UInt8) : Terminal :=
  let bg := bgRgb color
  let screen :=
    range 0 t.geom.framebuffer.height (fun y s =>
      range 0 t.geom.framebuffer.width (fun x s =>
        s.store (y * t.geom.pitchPx + x) bg) s) t.screen
  let lineLen := range 0 t.geom.vgaHeight.toNat (fun i l => l.store i 0) t.lineLen
  vgaMoveCursor { t with screen := screen, lineLen := lineLen } 0 0

/-- The pixel part of `vga_up`: every pixel row moves up by a glyph, in ascending order, and the
last text row is cleared. -/
def scrollPixels (g : Geometry) (s : Screen) : Screen :=
  let s :=
    range glyphH (g.vgaHeight * glyphH).toNat (fun y s =>
      range 0 (g.vgaWidth * glyphW).toNat (fun x s =>
        s.copy ((y - glyphH) * g.pitchPx + x) (y * g.pitchPx + x)) s) s
  range 0 g.vgaWidth.toNat (fun x s => clearCell g s x (g.vgaHeight - 1).toNat 0x07) s

/-- The `line_len` part of `vga_up`. -/
def scrollLineLen (g : Geometry) (l : LineLen) : LineLen :=
  let l :=
    range 1 g.vgaHeight.toNat (fun r l => (l.touch r).store (r - 1) (l.len r).toNat) l
  l.store (g.vgaHeight - 1).toNat 0

/-- `vga_up`. -/
def vgaUp (t : Terminal) : Terminal :=
  { t with
    screen := scrollPixels t.geom t.screen
    lineLen := scrollLineLen t.geom t.lineLen }

/-- The three places of `vga_putc` that go to the start of the next row, and scroll when there is
none. -/
def openRow (t : Terminal) : Terminal :=
  let newCursorRow := u16 (t.cursorRow + 1)
  if (newCursorRow : Int) ≥ t.geom.vgaHeight then
    -- The screen scrolls, and the cursor stays on the last row.
    vgaMoveCursor (vgaUp t) 0 (u16 (t.geom.vgaHeight - 1).toNat)
  else
    vgaMoveCursor t 0 newCursorRow

/-- The `'\t'` branch of `vga_putc`. -/
def putTab (t : Terminal) : Terminal :=
  -- To the next even column; `line_len` does not learn of the cells skipped.
  let newCursorColumn := u16 (t.cursorColumn + (2 - t.cursorColumn % 2))
  if (newCursorColumn : Int) ≥ t.geom.vgaWidth then
    openRow t
  else
    vgaMoveCursor t newCursorColumn t.cursorRow

/-- The end of the `'\b'` branch of `vga_putc`, once the cell to erase is known. -/
def eraseCell (t : Terminal) (newCursorColumn newCursorRow : Nat) : Terminal :=
  let screen := clearCell t.geom t.screen newCursorColumn newCursorRow 0
  let lineLen := t.lineLen.touch newCursorRow
  let lineLen :=
    if newCursorColumn < (lineLen.len newCursorRow).toNat then
      lineLen.store newCursorRow newCursorColumn
    else
      lineLen
  vgaMoveCursor { t with screen := screen, lineLen := lineLen } newCursorColumn newCursorRow

/-- The `'\b'` branch of `vga_putc`. -/
def putBackspace (t : Terminal) : Terminal :=
  if t.cursorColumn = 0 then
    if t.cursorRow = 0 then
      t
    else
      -- `line_len` says where the row above ends.
      let newCursorRow := t.cursorRow - 1
      let t := { t with lineLen := t.lineLen.touch newCursorRow }
      eraseCell t (t.lineLen.len newCursorRow).toNat newCursorRow
  else
    eraseCell t (t.cursorColumn - 1) t.cursorRow

/-- The part of `vga_putc` after the control characters. -/
def putGlyph (t : Terminal) (c color : UInt8) : Terminal :=
  let screen := drawCell t.geom t.screen t.cursorColumn t.cursorRow c color
  let lineLen := t.lineLen.touch t.cursorRow
  -- The length of the row only grows here.
  let lineLen :=
    if t.cursorColumn + 1 > (lineLen.len t.cursorRow).toNat then
      lineLen.store t.cursorRow (t.cursorColumn + 1)
    else
      lineLen
  let t := { t with screen := screen, lineLen := lineLen }
  let newCursorColumn := u16 (t.cursorColumn + 1)
  if (newCursorColumn : Int) ≥ t.geom.vgaWidth then
    openRow t
  else
    vgaMoveCursor t newCursorColumn t.cursorRow

/-- `vga_putc`.  Bytes from 128 on are negative as `char`, so the control branch takes them. -/
def vgaPutc (t : Terminal) (c color : UInt8) : Terminal :=
  if signedChar c ≤ 31 then
    if c = 10 then openRow t
    else if c = 9 then putTab t
    else if c = 8 then putBackspace t
    else t
  else
    putGlyph t c color

/-! ## Histories -/

/-- The two calls a history of the terminal is made of. -/
inductive Op
  | putc (c color : UInt8)
  | clearScreen (color : UInt8)
  deriving DecidableEq, Repr

def Op.apply (t : Terminal) : Op → Terminal
  | .putc c color => vgaPutc t c color
  | .clearScreen color => vgaClearScreen t color

/-- The state in which `kernel_main` leaves the terminal: initialised, then cleared. -/
def started (gFramebuffer : Framebuffer) (fb : Nat → UInt32) (color : UInt8) : Terminal :=
  vgaClearScreen (Terminal.init gFramebuffer fb) color

/-- The state after a history of calls. -/
def history (gFramebuffer : Framebuffer) (fb : Nat → UInt32) (color : UInt8) (ops : List Op) :
    Terminal :=
  ops.foldl Op.apply (started gFramebuffer fb color)

end Vga
end Feudos
