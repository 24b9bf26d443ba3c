import Mathlib.Tactic.NormNum
import Feudos.Vga.Bounds

/-!
# Pixels and blocks

What the drawing functions do to the picture.  A `Geometry` *fits* when its text grid lies inside
the framebuffer and the framebuffer lies inside the 64-bit address space; then different pixels
are different words.

- `pixel_fillRect`  : a double loop of stores fills a rectangle;
- `block_drawCell`  : `draw_cell` replaces one 8x8 block;
- `block_scroll`    : `vga_up` moves every block up by one row and blanks the last row;
- `pixel_*_outside` : neither changes a pixel outside the text grid.
-/

namespace Feudos
namespace Vga

open CountedLoop

variable {g : Geometry} {s : Screen}

/-! ## Pixels -/

/-- The word of pixel `(x, y)`. -/
def pixel (g : Geometry) (s : Screen) (x y : Nat) : UInt32 :=
  s.fb (u64 (y * g.pitchPx + x))

/-- The text grid lies in the framebuffer, a pixel row in its pitch, and the framebuffer in the
address space. -/
structure Geometry.Fits (g : Geometry) : Prop where
  width_le : g.vgaWidth * 8 ≤ g.framebuffer.width
  pitch : g.framebuffer.width ≤ g.pitchPx
  height_le : g.vgaHeight * 8 ≤ g.framebuffer.height
  words : g.pitchPx * g.framebuffer.height ≤ 2 ^ 64

theorem toInt_le (n : Nat) : toInt n ≤ n := by
  have hmod : (n : Int) % ((2 ^ 32 : Nat) : Int) ≤ n := by
    exact_mod_cast Nat.mod_le n (2 ^ 32)
  have hbmod : Int.bmod n (2 ^ 32) ≤ (n : Int) % ((2 ^ 32 : Nat) : Int) := by
    rw [Int.bmod_def]
    split
    · exact Int.le_refl _
    · exact Int.sub_le_self _ (by decide)
  calc
    toInt n ≤ (n : Int) % ((2 ^ 32 : Nat) : Int) := hbmod
    _ ≤ n := hmod

/-- The text grid is no wider than the framebuffer. -/
theorem vgaInit_width_le (f : Framebuffer) : (vgaInit f).vgaWidth * 8 ≤ f.width := by
  have h := toInt_le (f.width / glyphW)
  simp only [vgaInit, glyphW] at h ⊢
  omega

theorem vgaInit_height_le (f : Framebuffer) : (vgaInit f).vgaHeight * 8 ≤ f.height := by
  have h := toInt_le (f.height / glyphH)
  have hle : (vgaInit f).vgaHeight ≤ toInt (f.height / glyphH) := by
    by_cases hmax : toInt (f.height / glyphH) > maxRows
    · simp only [vgaInit, if_pos hmax]
      exact Int.le_of_lt hmax
    · simp only [vgaInit, if_neg hmax]
      exact Int.le_refl _
  simp only [vgaInit, glyphH] at h hle ⊢
  omega

theorem vgaInit_fits {f : Framebuffer} (hpitch : f.width ≤ f.pitch / 4) :
    (vgaInit f).Fits where
  width_le := vgaInit_width_le f
  pitch := hpitch
  height_le := vgaInit_height_le f
  words := by
    calc
      f.pitch / 4 * f.height ≤ f.pitch * f.height :=
        Nat.mul_le_mul_right _ (Nat.div_le_self _ _)
      _ ≤ 2 ^ 64 := f.addressable

theorem pixelIndex_lt (hg : g.Fits) {x y : Nat} (hx : x < g.pitchPx)
    (hy : y < g.framebuffer.height) : y * g.pitchPx + x < 2 ^ 64 := by
  calc
    y * g.pitchPx + x < g.pitchPx * g.framebuffer.height := index_lt (k := 1) (by omega) (by omega)
    _ ≤ 2 ^ 64 := hg.words

/-- Different pixels are different words. -/
theorem pixelIndex_inj (hg : g.Fits) {x y x' y' : Nat} (hx : x < g.pitchPx)
    (hy : y < g.framebuffer.height) (hx' : x' < g.pitchPx) (hy' : y' < g.framebuffer.height) :
    u64 (y * g.pitchPx + x) = u64 (y' * g.pitchPx + x') ↔ x = x' ∧ y = y' := by
  rw [u64_of_lt (pixelIndex_lt hg hx hy), u64_of_lt (pixelIndex_lt hg hx' hy')]
  have hpos : 0 < g.pitchPx := by omega
  constructor
  · intro hEq
    have hrow : y = y' := by
      have hdiv := congrArg (· / g.pitchPx) hEq
      simpa [Nat.mul_comm _ g.pitchPx, Nat.mul_add_div hpos, Nat.div_eq_of_lt hx,
        Nat.div_eq_of_lt hx'] using hdiv
    subst hrow
    exact ⟨Nat.add_left_cancel hEq, rfl⟩
  · rintro ⟨rfl, rfl⟩
    rfl

@[simp] theorem pixel_note (a : Access) (x y : Nat) :
    pixel g (s.note a) x y = pixel g s x y := rfl

theorem pixel_store (hg : g.Fits) {x y X Y : Nat} (v : UInt32) (hx : x < g.pitchPx)
    (hy : y < g.framebuffer.height) (hX : X < g.pitchPx) (hY : Y < g.framebuffer.height) :
    pixel g (s.store (y * g.pitchPx + x) v) X Y =
      if X = x ∧ Y = y then v else pixel g s X Y := by
  simp only [pixel, Screen.store, Function.update_apply, pixelIndex_inj hg hX hY hx hy]

theorem pixel_copy (hg : g.Fits) {x y X Y : Nat} (y' : Nat) (hx : x < g.pitchPx)
    (hy : y < g.framebuffer.height) (hX : X < g.pitchPx) (hY : Y < g.framebuffer.height) :
    pixel g (s.copy (y * g.pitchPx + x) (y' * g.pitchPx + x)) X Y =
      if X = x ∧ Y = y then pixel g s x y' else pixel g s X Y := by
  have h := pixel_store (s := s.note (.word (u64 (y' * g.pitchPx + x)))) hg
    (s.fb (u64 (y' * g.pitchPx + x))) hx hy hX hY
  have hsrc : pixel g s x y' = s.fb (u64 (y' * g.pitchPx + x)) := rfl
  rw [hsrc]
  simpa [Screen.copy] using h

/-! ## Filling a rectangle -/

/-- One pixel row of a filled rectangle. -/
theorem pixel_fillRow (hg : g.Fits) {x0 y m : Nat} (v : Nat → UInt32) (hx0 : x0 + m ≤ g.pitchPx)
    (hy : y < g.framebuffer.height) {X Y : Nat} (hX : X < g.pitchPx)
    (hY : Y < g.framebuffer.height) :
    pixel g (range 0 m (fun x s => s.store (y * g.pitchPx + (x0 + x)) (v x)) s) X Y =
      if (x0 ≤ X ∧ X < x0 + m) ∧ Y = y then v (X - x0) else pixel g s X Y := by
  refine range_induction 0 m (fun x s => s.store (y * g.pitchPx + (x0 + x)) (v x)) s
    (fun i s' => pixel g s' X Y =
      if (x0 ≤ X ∧ X < x0 + i) ∧ Y = y then v (X - x0) else pixel g s X Y)
    (Nat.zero_le m) ?_ ?_
  · rw [if_neg (by omega)]
  · intro i s' _ hi hI
    rw [pixel_store hg (v i) (by omega) hy hX hY, hI]
    by_cases hnow : X = x0 + i ∧ Y = y
    · have hsub : X - x0 = i := by omega
      rw [if_pos hnow, if_pos (by omega), hsub]
    · rw [if_neg hnow]
      have hiff : ((x0 ≤ X ∧ X < x0 + i) ∧ Y = y) ↔ ((x0 ≤ X ∧ X < x0 + (i + 1)) ∧ Y = y) := by
        omega
      simp only [hiff]

/-- A double loop of stores fills the rectangle of `m` by `n` pixels at `(x0, y0)`. -/
theorem pixel_fillRect (hg : g.Fits) (x0 y0 : Nat) {m n : Nat} (v : Nat → Nat → UInt32)
    (hx0 : x0 + m ≤ g.pitchPx) (hy0 : y0 + n ≤ g.framebuffer.height) {X Y : Nat}
    (hX : X < g.pitchPx) (hY : Y < g.framebuffer.height) :
    pixel g (range 0 n (fun y s =>
        range 0 m (fun x s => s.store ((y0 + y) * g.pitchPx + (x0 + x)) (v x y)) s) s) X Y =
      if (x0 ≤ X ∧ X < x0 + m) ∧ y0 ≤ Y ∧ Y < y0 + n then v (X - x0) (Y - y0)
      else pixel g s X Y := by
  refine range_induction 0 n (fun y s =>
      range 0 m (fun x s => s.store ((y0 + y) * g.pitchPx + (x0 + x)) (v x y)) s) s
    (fun i s' => pixel g s' X Y =
      if (x0 ≤ X ∧ X < x0 + m) ∧ y0 ≤ Y ∧ Y < y0 + i then v (X - x0) (Y - y0)
      else pixel g s X Y)
    (Nat.zero_le n) ?_ ?_
  · rw [if_neg (by omega)]
  · intro i s' _ hi hI
    rw [pixel_fillRow hg (fun x => v x i) hx0 (by omega) hX hY, hI]
    by_cases hnow : (x0 ≤ X ∧ X < x0 + m) ∧ Y = y0 + i
    · have hsub : Y - y0 = i := by omega
      rw [if_pos hnow, if_pos (by omega), hsub]
    · rw [if_neg hnow]
      have hiff : ((x0 ≤ X ∧ X < x0 + m) ∧ y0 ≤ Y ∧ Y < y0 + i) ↔
          ((x0 ≤ X ∧ X < x0 + m) ∧ y0 ≤ Y ∧ Y < y0 + (i + 1)) := by
        omega
      simp only [hiff]

/-! ## One cell -/

/-- The pixel at `(px, py)` of the glyph of `c`. -/
def glyphPixel (c color : UInt8) (px py : Nat) : UInt32 :=
  if (glyph c.toNat py).toNat &&& (1 <<< px) ≠ 0 then fgRgb color else bgRgb color

theorem pixel_drawCell (hg : g.Fits) (col row : Nat) (c color : UInt8)
    (hcol : (col : Int) < g.vgaWidth) (hrow : (row : Int) < g.vgaHeight) {X Y : Nat}
    (hX : X < g.pitchPx) (hY : Y < g.framebuffer.height) :
    pixel g (drawCell g s col row c color) X Y =
      if X / 8 = col ∧ Y / 8 = row then glyphPixel c color (X % 8) (Y % 8)
      else pixel g s X Y := by
  have hwidth := hg.width_le
  have hpitch := hg.pitch
  have hheight := hg.height_le
  have hfill := pixel_fillRect (s := (s.note (.cell col row)).note (.font c.toNat)) hg
    (col * 8) (row * 8) (m := 8) (n := 8) (glyphPixel c color) (by omega) (by omega) hX hY
  have hin : ((col * 8 ≤ X ∧ X < col * 8 + 8) ∧ row * 8 ≤ Y ∧ Y < row * 8 + 8) ↔
      (X / 8 = col ∧ Y / 8 = row) := by
    omega
  have hdraw : drawCell g s col row c color =
      range 0 8 (fun y s => range 0 8 (fun x s =>
        s.store ((row * 8 + y) * g.pitchPx + (col * 8 + x)) (glyphPixel c color x y)) s)
        ((s.note (.cell col row)).note (.font c.toNat)) := rfl
  rw [hdraw, hfill]
  simp only [hin, pixel_note]
  split
  · have hx : X - col * 8 = X % 8 := by omega
    have hy : Y - row * 8 = Y % 8 := by omega
    rw [hx, hy]
  · rfl

/-- The blank cell that scrolling and erasing draw is black. -/
theorem glyphPixel_space {color : UInt8} (hbg : bgRgb color = 0) (px py : Nat) :
    glyphPixel 32 color px py = 0 := by
  simp [glyphPixel, glyph_space, hbg]

/-! ## Scrolling -/

/-- One pixel row of the text area, copied up by a glyph. -/
theorem pixel_copyRow (hg : g.Fits) {y : Nat} (hy8 : 8 ≤ y) (hyH : (y : Int) < g.vgaHeight * 8)
    {X Y : Nat} (hX : X < g.pitchPx) (hY : Y < g.framebuffer.height) :
    pixel g (range 0 (g.vgaWidth * glyphW).toNat (fun x s =>
        s.copy ((y - glyphH) * g.pitchPx + x) (y * g.pitchPx + x)) s) X Y =
      if (X : Int) < g.vgaWidth * 8 ∧ Y + 8 = y then pixel g s X y else pixel g s X Y := by
  have hwidth := hg.width_le
  have hpitch := hg.pitch
  have hheight := hg.height_le
  -- The copies below `i` have been made; row `y` itself is not written.
  have hloop := range_induction 0 (g.vgaWidth * glyphW).toNat
    (fun x s => s.copy ((y - glyphH) * g.pitchPx + x) (y * g.pitchPx + x)) s
    (fun i s' => ∀ X Y, X < g.pitchPx → Y < g.framebuffer.height →
      pixel g s' X Y = if X < i ∧ Y + 8 = y then pixel g s X y else pixel g s X Y)
    (Nat.zero_le _) (fun X Y _ _ => by rw [if_neg (by omega)]) (by
      intro i s' _ hi hI X Y hX hY
      simp only [glyphW] at hi
      show pixel g (s'.copy ((y - 8) * g.pitchPx + i) (y * g.pitchPx + i)) X Y = _
      rw [pixel_copy hg y (by omega) (by omega) hX hY]
      by_cases hnow : X = i ∧ Y = y - 8
      · rcases hnow with ⟨hXi, hYy⟩
        rw [if_pos ⟨hXi, hYy⟩, hI i y (by omega) (by omega), if_neg (by omega),
          if_pos (by omega), hXi]
      · rw [if_neg hnow, hI X Y hX hY]
        have hiff : (X < i ∧ Y + 8 = y) ↔ (X < i + 1 ∧ Y + 8 = y) := by omega
        simp only [hiff])
  rw [hloop X Y hX hY]
  have hiff : (X < (g.vgaWidth * glyphW).toNat ∧ Y + 8 = y) ↔
      ((X : Int) < g.vgaWidth * 8 ∧ Y + 8 = y) := by
    simp only [glyphW]
    omega
  simp only [hiff]

/-- The pixel rows of the text area, moved up by a glyph. -/
theorem pixel_copyUp (hg : g.Fits) (hH : 1 ≤ g.vgaHeight) {X Y : Nat} (hX : X < g.pitchPx)
    (hY : Y < g.framebuffer.height) :
    pixel g (range glyphH (g.vgaHeight * glyphH).toNat (fun y s =>
        range 0 (g.vgaWidth * glyphW).toNat (fun x s =>
          s.copy ((y - glyphH) * g.pitchPx + x) (y * g.pitchPx + x)) s) s) X Y =
      if (X : Int) < g.vgaWidth * 8 ∧ (Y : Int) + 8 < g.vgaHeight * 8 then pixel g s X (Y + 8)
      else pixel g s X Y := by
  have hheight := hg.height_le
  -- The rows up to `i` have moved; row `i` and those below it are the old ones.
  have hloop := range_induction glyphH (g.vgaHeight * glyphH).toNat
    (fun y s => range 0 (g.vgaWidth * glyphW).toNat (fun x s =>
      s.copy ((y - glyphH) * g.pitchPx + x) (y * g.pitchPx + x)) s) s
    (fun i s' => ∀ X Y, X < g.pitchPx → Y < g.framebuffer.height →
      pixel g s' X Y = if (X : Int) < g.vgaWidth * 8 ∧ Y + 8 < i then pixel g s X (Y + 8)
        else pixel g s X Y)
    (by simp only [glyphH]; omega)
    (fun X Y _ _ => by rw [if_neg (by simp only [glyphH]; omega)]) (by
      intro i s' hlo hi hI X Y hX hY
      simp only [glyphH] at hlo hi
      rw [pixel_copyRow hg hlo (by omega) hX hY]
      by_cases hnow : (X : Int) < g.vgaWidth * 8 ∧ Y + 8 = i
      · rcases hnow with ⟨hXW, hYi⟩
        rw [if_pos ⟨hXW, hYi⟩, hI X i hX (by omega), if_neg (by omega), if_pos (by omega), hYi]
      · rw [if_neg hnow, hI X Y hX hY]
        have hiff : ((X : Int) < g.vgaWidth * 8 ∧ Y + 8 < i) ↔
            ((X : Int) < g.vgaWidth * 8 ∧ Y + 8 < i + 1) := by
          omega
        simp only [hiff])
  rw [hloop X Y hX hY]
  have hiff : ((X : Int) < g.vgaWidth * 8 ∧ Y + 8 < (g.vgaHeight * glyphH).toNat) ↔
      ((X : Int) < g.vgaWidth * 8 ∧ (Y : Int) + 8 < g.vgaHeight * 8) := by
    simp only [glyphH]
    omega
  simp only [hiff]

/-- `vga_up` on the pixels. -/
theorem pixel_scroll (hg : g.Fits) (hH : 1 ≤ g.vgaHeight) {X Y : Nat} (hX : X < g.pitchPx)
    (hY : Y < g.framebuffer.height) :
    pixel g (scrollPixels g s) X Y =
      if (X : Int) < g.vgaWidth * 8 ∧ (Y : Int) < g.vgaHeight * 8 then
        if (Y : Int) + 8 < g.vgaHeight * 8 then pixel g s X (Y + 8) else 0
      else pixel g s X Y := by
  have hwidth := hg.width_le
  have hpitch := hg.pitch
  have hheight := hg.height_le
  have hcopy := pixel_copyUp (s := s) hg hH hX hY
  -- The cells below `i` of the last row are blank.
  have hloop := fun s' : Screen => range_induction 0 g.vgaWidth.toNat
    (fun x s => clearCell g s x (g.vgaHeight - 1).toNat 0x07) s'
    (fun i s'' => pixel g s'' X Y =
      if X / 8 < i ∧ Y / 8 = (g.vgaHeight - 1).toNat then 0 else pixel g s' X Y)
    (Nat.zero_le _) (by rw [if_neg (by omega)]) (by
      intro i s'' _ hi hI
      have hdraw := pixel_drawCell (s := s'') hg i (g.vgaHeight - 1).toNat 32 0x07
        (by omega) (by omega) hX hY
      rw [glyphPixel_space (by decide)] at hdraw
      rw [clearCell, hdraw, hI]
      by_cases hnow : X / 8 = i ∧ Y / 8 = (g.vgaHeight - 1).toNat
      · rw [if_pos hnow, if_pos (by omega)]
      · rw [if_neg hnow]
        have hiff : (X / 8 < i ∧ Y / 8 = (g.vgaHeight - 1).toNat) ↔
            (X / 8 < i + 1 ∧ Y / 8 = (g.vgaHeight - 1).toNat) := by
          omega
        simp only [hiff])
  simp only [scrollPixels]
  rw [hloop, hcopy]
  by_cases hin : (X : Int) < g.vgaWidth * 8 ∧ (Y : Int) < g.vgaHeight * 8
  · rw [if_pos hin]
    by_cases hlast : (Y : Int) + 8 < g.vgaHeight * 8
    · rw [if_neg (by omega), if_pos ⟨hin.1, hlast⟩, if_pos hlast]
    · rw [if_pos (by omega), if_neg hlast]
  · rw [if_neg hin, if_neg (by omega), if_neg (by omega)]

/-! ## Blocks -/

/-- The 8x8 block of text cell `(c, r)`. -/
def block (g : Geometry) (s : Screen) (c r : Nat) : Fin 8 → Fin 8 → UInt32 :=
  fun px py => pixel g s (c * 8 + px) (r * 8 + py)

/-- The block that `draw_cell` draws. -/
def glyphBlock (c color : UInt8) : Fin 8 → Fin 8 → UInt32 :=
  fun px py => glyphPixel c color px py

/-- A black block. -/
def blankBlock : Fin 8 → Fin 8 → UInt32 :=
  fun _ _ => 0

theorem glyphBlock_space {color : UInt8} (hbg : bgRgb color = 0) :
    glyphBlock 32 color = blankBlock := by
  funext px py
  exact glyphPixel_space hbg px py

theorem block_drawCell (hg : g.Fits) {col row : Nat} (ch color : UInt8)
    (hcol : (col : Int) < g.vgaWidth) (hrow : (row : Int) < g.vgaHeight) {c r : Nat}
    (hc : (c : Int) < g.vgaWidth) (hr : (r : Int) < g.vgaHeight) :
    block g (drawCell g s col row ch color) c r =
      if c = col ∧ r = row then glyphBlock ch color else block g s c r := by
  have hwidth := hg.width_le
  have hpitch := hg.pitch
  have hheight := hg.height_le
  funext px py
  have hpx := px.isLt
  have hpy := py.isLt
  simp only [block]
  rw [pixel_drawCell hg col row ch color hcol hrow (by omega) (by omega)]
  have hdivx : (c * 8 + px) / 8 = c := by omega
  have hdivy : (r * 8 + py) / 8 = r := by omega
  have hmodx : (c * 8 + px) % 8 = px := by omega
  have hmody : (r * 8 + py) % 8 = py := by omega
  rw [hdivx, hdivy, hmodx, hmody]
  split <;> rfl

theorem block_scroll (hg : g.Fits) (hH : 1 ≤ g.vgaHeight) {c r : Nat}
    (hc : (c : Int) < g.vgaWidth) (hr : (r : Int) < g.vgaHeight) :
    block g (scrollPixels g s) c r =
      if (r : Int) + 1 < g.vgaHeight then block g s c (r + 1) else blankBlock := by
  have hwidth := hg.width_le
  have hpitch := hg.pitch
  have hheight := hg.height_le
  funext px py
  have hpx := px.isLt
  have hpy := py.isLt
  simp only [block]
  rw [pixel_scroll hg hH (by omega) (by omega), if_pos (by omega)]
  by_cases hlast : (r : Int) + 1 < g.vgaHeight
  · have hnext : r * 8 + py + 8 = (r + 1) * 8 + py := by omega
    rw [if_pos (by omega), if_pos hlast, hnext]
    rfl
  · rw [if_neg (by omega), if_neg hlast]
    rfl

/-! ## Outside the text grid -/

theorem pixel_drawCell_outside (hg : g.Fits) {col row : Nat} (c color : UInt8)
    (hcol : (col : Int) < g.vgaWidth) (hrow : (row : Int) < g.vgaHeight) {X Y : Nat}
    (hX : X < g.pitchPx) (hY : Y < g.framebuffer.height)
    (hout : ¬ ((X : Int) < g.vgaWidth * 8 ∧ (Y : Int) < g.vgaHeight * 8)) :
    pixel g (drawCell g s col row c color) X Y = pixel g s X Y := by
  rw [pixel_drawCell hg col row c color hcol hrow hX hY, if_neg (by omega)]

theorem pixel_scroll_outside (hg : g.Fits) (hH : 1 ≤ g.vgaHeight) {X Y : Nat}
    (hX : X < g.pitchPx) (hY : Y < g.framebuffer.height)
    (hout : ¬ ((X : Int) < g.vgaWidth * 8 ∧ (Y : Int) < g.vgaHeight * 8)) :
    pixel g (scrollPixels g s) X Y = pixel g s X Y := by
  rw [pixel_scroll hg hH hX hY, if_neg hout]

end Vga
end Feudos
