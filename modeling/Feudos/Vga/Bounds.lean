import Mathlib.Tactic.Ring
import Feudos.Vga.Grid

/-!
# Memory safety of the terminal

The cursor can leave the text grid to the right: a backspace loads its column from `line_len`.
Such a column is at most 255, and it never appears on the last row of the screen, because
backspace loads it when it moves up.  On a screen of at least 320 pixels the overshoot of less
than seven pixel rows therefore stays inside the framebuffer.
-/

namespace Feudos
namespace Vga

open CountedLoop GuardedRun

variable {g : Geometry} {t : Terminal}

/-! ## The geometry of a framebuffer below 65536 pixels -/

theorem toInt_of_lt {n : Nat} (h : n < 2 ^ 31) : toInt n = n := by
  unfold toInt
  apply Int.bmod_eq_of_le <;> omega

theorem vgaInit_vgaWidth {gFramebuffer : Framebuffer} (hw : gFramebuffer.width < 65536) :
    (vgaInit gFramebuffer).vgaWidth = (gFramebuffer.width / 8 : Nat) := by
  have h : toInt (gFramebuffer.width / 8) = (gFramebuffer.width / 8 : Nat) :=
    toInt_of_lt (by omega)
  simpa [vgaInit, glyphW] using h

theorem vgaInit_vgaHeight {gFramebuffer : Framebuffer} (hh : gFramebuffer.height < 65536) :
    (vgaInit gFramebuffer).vgaHeight = (min (gFramebuffer.height / 8) 256 : Nat) := by
  have h : toInt (gFramebuffer.height / glyphH) = (gFramebuffer.height / 8 : Nat) :=
    toInt_of_lt (by simp only [glyphH]; omega)
  simp only [vgaInit, h, maxRows]
  split <;> omega

/-- A word that starts `x` words after pixel row `y` lies in the framebuffer, if the `k` pixel
rows from `y` on do and cover `x`. -/
theorem index_lt {x y k p h : Nat} (hx : x < k * p) (hy : y + k ≤ h) : y * p + x < p * h := by
  have hle : (y + k) * p ≤ h * p := Nat.mul_le_mul_right p hy
  calc
    y * p + x < y * p + k * p := Nat.add_lt_add_left hx _
    _ = (y + k) * p := by ring
    _ ≤ h * p := hle
    _ = p * h := Nat.mul_comm h p

/-! ## Accesses in bounds -/

/-- What an access has to satisfy: a glyph of the font, or a word of the framebuffer. -/
def InBounds (f : Framebuffer) : Access → Prop
  | .cell _ _ => True
  | .font i => i < 128
  | .word i => i < f.pitch / 4 * f.height

/-- Columns that the cursor can have: inside the grid, or loaded from a line length on a row that
is not the last. -/
def Reachable (g : Geometry) (col row : Nat) : Prop :=
  (row : Int) < g.vgaHeight ∧
    ((col : Int) < g.vgaWidth ∨ (col ≤ 255 ∧ (row : Int) + 1 < g.vgaHeight))

/-- The framebuffers that the accesses are safe on: 40 characters fit in a row. -/
structure Framebuffer.Wide (f : Framebuffer) : Prop where
  pitch : f.width ≤ f.pitch / 4
  width : 320 ≤ f.width
  width_lt : f.width < 65536
  height : 8 ≤ f.height
  height_lt : f.height < 65536

section

variable {f : Framebuffer}

theorem Framebuffer.Wide.hasCells (hf : f.Wide) : (vgaInit f).HasCells := by
  have hw := hf.width
  have hh := hf.height
  refine vgaInit_hasCells ?_ ?_
  · rw [vgaInit_vgaWidth hf.width_lt]
    omega
  · rw [vgaInit_vgaHeight hf.height_lt]
    omega

theorem reachable_cellOk (hf : f.Wide) {col row : Nat} (h : Reachable (vgaInit f) col row) :
    CellOk (vgaInit f) (InBounds f) col row := by
  refine ⟨trivial, ?_⟩
  intro y x hy hx
  rcases h with ⟨hrow, hcol⟩
  have hpitch := hf.pitch
  have hwidth := hf.width
  rw [vgaInit_vgaHeight hf.height_lt] at hrow hcol
  rw [vgaInit_vgaWidth hf.width_lt] at hcol
  simp only [glyphH, glyphW] at hy hx ⊢
  refine Nat.lt_of_le_of_lt (u64_le _) ?_
  rcases hcol with hcol | ⟨hcol, hnext⟩
  · exact index_lt (k := 1) (by simp only [vgaInit]; omega) (by omega)
  · -- The overshoot: 255 columns are less than seven pixel rows of 320 pixels.
    exact index_lt (k := 7) (by simp only [vgaInit]; omega) (by omega)

theorem inBounds_allows (hf : f.Wide) : Allows (vgaInit f) (InBounds f) where
  font _ hi := hi
  cell col row hcol hrow := reachable_cellOk hf ⟨hrow, Or.inl hcol⟩
  pixel x y hx hy := by
    have hpitch := hf.pitch
    rw [vgaInit_vgaWidth hf.width_lt] at hx
    rw [vgaInit_vgaHeight hf.height_lt] at hy
    simp only [glyphW, glyphH] at hx hy
    refine Nat.lt_of_le_of_lt (u64_le _) ?_
    exact index_lt (k := 1) (by simp only [vgaInit]; omega) (by omega)
  clear x y hx hy := by
    have hpitch := hf.pitch
    simp only [vgaInit] at hx hy
    refine Nat.lt_of_le_of_lt (u64_le _) ?_
    exact index_lt (k := 1) (by simp only [vgaInit]; omega) (by omega)

end

/-! ## Accesses of `line_len` -/

/-- Every access of `line_len` so far was inside its 256 entries. -/
def LineLen.InArray (l : LineLen) : Prop :=
  ∀ r ∈ l.trace, r < maxRows

@[simp] theorem inArray_touch {l : LineLen} {r : Nat} :
    (l.touch r).InArray ↔ r < maxRows ∧ l.InArray := by
  simp [LineLen.InArray, LineLen.touch]

@[simp] theorem inArray_store {l : LineLen} {r v : Nat} :
    (l.store r v).InArray ↔ r < maxRows ∧ l.InArray := by
  simp [LineLen.InArray, LineLen.store]

theorem scrollLineLen_inArray {l : LineLen} (hg : g.HasCells) (hl : l.InArray) :
    (scrollLineLen g l).InArray := by
  have hle := hg.height_le
  have hloop : (range 1 g.vgaHeight.toNat
      (fun r l => (l.touch r).store (r - 1) (l.len r).toNat) l).InArray := by
    refine range_invariant LineLen.InArray hl ?_
    intro r l' hlo hhi hl'
    have hr : r < maxRows := by simp only [maxRows]; omega
    have hr' : r - 1 < maxRows := by simp only [maxRows]; omega
    simp [hr, hr', hl']
  have hlast : (g.vgaHeight - 1).toNat < maxRows := by simp only [maxRows]; omega
  exact inArray_store.2 ⟨hlast, hloop⟩

theorem openRow_inArray (hg : t.geom.HasCells) (hl : t.lineLen.InArray) :
    (openRow t).lineLen.InArray := by
  unfold openRow
  dsimp only
  split
  · exact scrollLineLen_inArray hg hl
  · exact hl

theorem vgaPutc_inArray {c color : UInt8} (hg : t.geom.HasCells)
    (hrow : (t.cursorRow : Int) < t.geom.vgaHeight) (hl : t.lineLen.InArray) :
    (vgaPutc t c color).lineLen.InArray := by
  have hle := hg.height_le
  have hr : t.cursorRow < maxRows := by simp only [maxRows]; omega
  have hr' : t.cursorRow - 1 < maxRows := by omega
  refine vgaPutc_cases (motive := fun t' => t'.lineLen.InArray) t c color
    (fun _ => openRow_inArray hg hl) (fun _ => ?_) (fun _ => ?_) hl (fun _ => ?_)
  · exact putTab_cases (motive := fun t' => t'.lineLen.InArray) t
      (fun _ => openRow_inArray hg hl) (fun _ => hl)
  · refine putBackspace_cases (motive := fun t' => t'.lineLen.InArray) t (fun _ _ => hl)
      (fun _ _ => ?_) (fun _ => ?_)
    · simp only [eraseCell, vgaMoveCursor]
      split <;> simp [hr', hl]
    · simp only [eraseCell, vgaMoveCursor]
      split <;> simp [hr, hl]
  · have hprinted : (printed t c color).lineLen.InArray := by
      simp only [printed]
      split <;> simp [hr, hl]
    exact putGlyph_cases (motive := fun t' => t'.lineLen.InArray) t c color
      (fun _ => openRow_inArray (t := printed t c color) hg hprinted) (fun _ => hprinted)

/-! ## The invariant -/

/-- The terminal over the framebuffer `f` has made accesses in bounds only, and its cursor is
where the next access is in bounds as well. -/
structure Safe (f : Framebuffer) (t : Terminal) : Prop where
  geom : t.geom = vgaInit f
  cursor : Reachable (vgaInit f) t.cursorColumn t.cursorRow
  screen : t.screen.All (InBounds f)
  lineLen : t.lineLen.InArray

theorem openRow_reachable (hg : t.geom.HasCells) (hrow : (t.cursorRow : Int) < t.geom.vgaHeight) :
    Reachable t.geom (openRow t).cursorColumn (openRow t).cursorRow := by
  have hwidth := hg.width
  rw [openRow_cursorColumn]
  exact ⟨openRow_cursorRow_lt hrow hg.height_le, Or.inl (by omega)⟩

/-- The column that backspace loads is an 8-bit value, on a row above the cursor's. -/
theorem backspace_up_reachable (h : (t.cursorRow : Int) < g.vgaHeight) (hrow : t.cursorRow ≠ 0) :
    Reachable g (t.lineLen.len (t.cursorRow - 1)).toNat (t.cursorRow - 1) := by
  have hlen := (t.lineLen.len (t.cursorRow - 1)).toNat_lt
  exact ⟨by omega, Or.inr ⟨by omega, by omega⟩⟩

theorem reachable_left (h : Reachable g t.cursorColumn t.cursorRow) :
    Reachable g (t.cursorColumn - 1) t.cursorRow := by
  rcases h with ⟨hrow, hcol | ⟨hcol, hnext⟩⟩
  · exact ⟨hrow, Or.inl (by omega)⟩
  · exact ⟨hrow, Or.inr ⟨by omega, hnext⟩⟩

theorem vgaPutc_reachable {c color : UInt8} (hg : t.geom.HasCells)
    (h : Reachable t.geom t.cursorColumn t.cursorRow) :
    Reachable t.geom (vgaPutc t c color).cursorColumn (vgaPutc t c color).cursorRow := by
  have hopen := openRow_reachable hg h.1
  refine vgaPutc_cases
    (motive := fun t' => Reachable t.geom t'.cursorColumn t'.cursorRow) t c color
    (fun _ => hopen) (fun _ => ?_) (fun _ => ?_) h (fun _ => ?_)
  · exact putTab_cases (motive := fun t' => Reachable t.geom t'.cursorColumn t'.cursorRow) t
      (fun _ => hopen) (fun hlt => ⟨h.1, Or.inl hlt⟩)
  · exact putBackspace_cases (motive := fun t' => Reachable t.geom t'.cursorColumn t'.cursorRow) t
      (fun _ _ => h) (fun _ hrow => backspace_up_reachable h.1 hrow) (fun _ => reachable_left h)
  · exact putGlyph_cases (motive := fun t' => Reachable t.geom t'.cursorColumn t'.cursorRow) t c
      color (fun _ => openRow_reachable (t := printed t c color) hg h.1)
      (fun hlt => ⟨h.1, Or.inl hlt⟩)

theorem history_reachable {f : Framebuffer} (hg : (vgaInit f).HasCells) (fb : Nat → UInt32)
    (color : UInt8) (ops : List Op) :
    Reachable (vgaInit f) (history f fb color ops).cursorColumn
      (history f fb color ops).cursorRow := by
  have hwidth := hg.width
  have hheight := hg.height
  have hcorner : Reachable (vgaInit f) 0 0 := ⟨by omega, Or.inl (by omega)⟩
  have hstep : ∀ (t : Terminal) (op : Op),
      t.geom = vgaInit f ∧ Reachable (vgaInit f) t.cursorColumn t.cursorRow →
        (op.apply t).geom = vgaInit f ∧
          Reachable (vgaInit f) (op.apply t).cursorColumn (op.apply t).cursorRow := by
    rintro t op ⟨hgeom, ht⟩
    refine ⟨by rw [apply_geom, hgeom], ?_⟩
    cases op with
    | putc c color =>
        exact hgeom ▸ vgaPutc_reachable (hgeom ▸ hg) (hgeom ▸ ht)
    | clearScreen color =>
        exact hcorner
  have hend : (history f fb color ops).geom = vgaInit f ∧
      Reachable (vgaInit f) (history f fb color ops).cursorColumn
        (history f fb color ops).cursorRow :=
    foldl_invariant
      (I := fun t : Terminal => t.geom = vgaInit f ∧
        Reachable (vgaInit f) t.cursorColumn t.cursorRow) hstep ⟨rfl, hcorner⟩
  exact hend.2

theorem vgaPutc_safe {f : Framebuffer} {c color : UInt8} (hf : f.Wide) (ht : Safe f t) :
    Safe f (vgaPutc t c color) := by
  have hgeom := ht.geom
  have hg : t.geom.HasCells := hgeom ▸ hf.hasCells
  have hcursor : Reachable t.geom t.cursorColumn t.cursorRow := hgeom ▸ ht.cursor
  have hcellOk : ∀ {col row}, Reachable t.geom col row → CellOk t.geom (InBounds f) col row := by
    intro col row h
    rw [hgeom] at h ⊢
    exact reachable_cellOk hf h
  refine ⟨by rw [vgaPutc_geom, hgeom], hgeom ▸ vgaPutc_reachable hg hcursor, ?_,
    vgaPutc_inArray hg hcursor.1 ht.lineLen⟩
  exact vgaPutc_all (hgeom ▸ inBounds_allows hf) hg.height (hcellOk hcursor)
    (fun _ _ hrow => hcellOk (backspace_up_reachable hcursor.1 hrow))
    (fun _ _ => hcellOk (reachable_left hcursor)) ht.screen

theorem vgaClearScreen_safe {f : Framebuffer} {color : UInt8} (hf : f.Wide)
    (hgeom : t.geom = vgaInit f) (hscreen : t.screen.All (InBounds f))
    (hl : t.lineLen.InArray) : Safe f (vgaClearScreen t color) := by
  have hg := hf.hasCells
  have hwidth := hg.width
  have hheight := hg.height
  have hle := hg.height_le
  have hcursor : Reachable (vgaInit f) 0 0 := ⟨by omega, Or.inl (by omega)⟩
  refine ⟨hgeom, hcursor, vgaClearScreen_all (hgeom ▸ inBounds_allows hf) hscreen, ?_⟩
  show (range 0 t.geom.vgaHeight.toNat (fun i l => l.store i 0) t.lineLen).InArray
  refine range_invariant LineLen.InArray hl ?_
  intro i l _ hi hl'
  rw [hgeom] at hi
  have hi' : i < maxRows := by simp only [maxRows]; omega
  simp [hi', hl']

/-- Every access of every history is in bounds: framebuffer words, glyphs and line lengths. -/
theorem history_accesses_in_bounds (f : Framebuffer) (fb : Nat → UInt32) (color : UInt8)
    (ops : List Op) (hpitch : f.width ≤ f.pitch / 4) (hw : 320 ≤ f.width)
    (hw' : f.width < 65536) (hh : 8 ≤ f.height) (hh' : f.height < 65536) :
    (∀ a ∈ (history f fb color ops).screen.trace, InBounds f a) ∧
      ∀ r ∈ (history f fb color ops).lineLen.trace, r < 256 := by
  have hf : f.Wide := ⟨hpitch, hw, hw', hh, hh'⟩
  have hstart : Safe f (started f fb color) := by
    refine vgaClearScreen_safe hf rfl ?_ ?_
    · intro a ha
      cases ha
    · intro r hr
      cases hr
  have hstep : ∀ (t : Terminal) (op : Op), Safe f t → Safe f (op.apply t) := by
    intro t op ht
    cases op with
    | putc c color =>
        exact vgaPutc_safe hf ht
    | clearScreen color =>
        exact vgaClearScreen_safe hf ht.geom ht.screen ht.lineLen
  have hend : Safe f (history f fb color ops) := foldl_invariant hstep hstart
  exact ⟨hend.screen, hend.lineLen⟩

/-- A 640x480 screen meets the assumptions. -/
theorem history_accesses_in_bounds_vga :
    (640 ≤ 2560 / 4 ∧ 320 ≤ 640 ∧ 640 < 65536 ∧ 8 ≤ 480 ∧ 480 < 65536) ∧
      (∀ a ∈ (history vga640 (fun _ => 0) 0x0F
        [.putc 65 0x0F, .putc 8 0x0F]).screen.trace, InBounds vga640 a) ∧
      ∀ r ∈ (history vga640 (fun _ => 0) 0x0F
        [.putc 65 0x0F, .putc 8 0x0F]).lineLen.trace, r < 256 :=
  ⟨by decide,
    history_accesses_in_bounds vga640 (fun _ => 0) 0x0F
      [.putc 65 0x0F, .putc 8 0x0F] (by decide) (by decide) (by decide) (by decide) (by decide)⟩

end Vga
end Feudos
