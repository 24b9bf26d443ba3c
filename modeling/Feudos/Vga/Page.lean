import Feudos.Vga.Pixels

/-!
# The screen as a window on a page

What the terminal is for: the text is written on a page without a lower end, and the screen is a
window of `VGA_HEIGHT` rows on it.  On the page nothing is ever copied; scrolling only moves the
window (`Page.top`).  Rows are counted from the top of the page.

`vgaPutc_shows` says that the terminal, with its in-place copies, shows that window after every
character except backspace; `eraseCell_shows` is the step of a backspace that stays in the grid.
-/

namespace Feudos
namespace Vga

variable {t : Terminal}

/-! ## Pages -/

/-- The page and the window on it: the first row of the window, the cursor, and the block of each
cell by row and column. -/
structure Page where
  top : Nat
  row : Nat
  col : Nat
  cell : Nat → Nat → Fin 8 → Fin 8 → UInt32

namespace Page

/-- Go to the next row; the window follows when the row is below it. -/
def openRow (g : Geometry) (p : Page) : Page :=
  { p with
    top := if (p.row : Int) + 1 < p.top + g.vgaHeight then p.top else p.top + 1
    row := p.row + 1
    col := 0 }

def write (p : Page) (row col : Nat) (b : Fin 8 → Fin 8 → UInt32) : Page :=
  { p with cell := fun r c => if c = col ∧ r = row then b else p.cell r c }

/-- Move to column `col` of the same row, or to the next row if there is no such column. -/
def advance (g : Geometry) (p : Page) (col : Nat) : Page :=
  if (col : Int) ≥ g.vgaWidth then p.openRow g else { p with col := col }

/-- Put a character on the page. -/
def putc (g : Geometry) (p : Page) (c color : UInt8) : Page :=
  if signedChar c ≤ 31 then
    if c = 10 then p.openRow g
    else if c = 9 then p.advance g (u16 (p.col + (2 - p.col % 2)))
    else p
  else
    (p.write p.row p.col (glyphBlock c color)).advance g (u16 (p.col + 1))

/-- Blank the cell at `(row, col)` and put the cursor there. -/
def erase (p : Page) (row col : Nat) : Page :=
  { p.write row col blankBlock with row := row, col := col }

end Page

/-! ## The terminal shows a page -/

/-- The terminal shows the window of `p`: its cursor is in the grid and at the page's cursor, every
cell of the grid has the page's block, and the page is blank below the window. -/
structure Shows (t : Terminal) (p : Page) : Prop where
  row : p.row = p.top + t.cursorRow
  row_lt : (t.cursorRow : Int) < t.geom.vgaHeight
  col : p.col = t.cursorColumn
  col_lt : (t.cursorColumn : Int) < t.geom.vgaWidth
  cells : ∀ c r : Nat, (c : Int) < t.geom.vgaWidth → (r : Int) < t.geom.vgaHeight →
    block t.geom t.screen c r = p.cell (p.top + r) c
  below : ∀ c r : Nat, p.top + t.geom.vgaHeight ≤ (r : Int) → p.cell r c = blankBlock

theorem openRow_shows {p : Page} (hf : t.geom.Fits) (hg : t.geom.HasCells) (h : Shows t p) :
    Shows (openRow t) (p.openRow t.geom) := by
  have hrow := h.row
  have hlt := h.row_lt
  have hwidth := hg.width
  have hcol0 : ((0 : Nat) : Int) < t.geom.vgaWidth := by omega
  rw [openRow_eq hlt hg.height_le]
  by_cases hroom : (t.cursorRow : Int) + 1 < t.geom.vgaHeight
  · -- There is a row below: only the cursor moves.
    have hpage : (p.row : Int) + 1 < p.top + t.geom.vgaHeight := by omega
    rw [if_pos hroom]
    simp only [Page.openRow, if_pos hpage]
    exact ⟨by simp only [vgaMoveCursor]; omega, hroom, rfl, hcol0, h.cells, h.below⟩
  · -- The window moves down by one row, whose cells are blank on the page and on the screen.
    have hpage : ¬ (p.row : Int) + 1 < p.top + t.geom.vgaHeight := by omega
    rw [if_neg hroom]
    simp only [Page.openRow, if_neg hpage]
    refine ⟨by simp only [vgaMoveCursor]; omega, hlt, rfl, hcol0, ?_, ?_⟩
    · intro c r hc hr
      show block t.geom (scrollPixels t.geom t.screen) c r = _
      rw [block_scroll hf hg.height hc hr]
      by_cases hlast : (r : Int) + 1 < t.geom.vgaHeight
      · have hnext : p.top + (r + 1) = p.top + 1 + r := by omega
        rw [if_pos hlast, h.cells c (r + 1) hc (by omega), hnext]
      · rw [if_neg hlast, h.below c (p.top + 1 + r) (by omega)]
    · intro c r hr
      have hgeom : (vgaMoveCursor (vgaUp t) 0 t.cursorRow).geom = t.geom := rfl
      rw [hgeom] at hr
      exact h.below c r (by push_cast at hr; omega)

theorem printed_shows {p : Page} (hf : t.geom.Fits) (c color : UInt8) (h : Shows t p) :
    Shows (printed t c color) (p.write p.row p.col (glyphBlock c color)) := by
  refine ⟨h.row, h.row_lt, h.col, h.col_lt, ?_, ?_⟩
  · intro c' r hc hr
    show block t.geom (drawCell t.geom t.screen t.cursorColumn t.cursorRow c color) c' r = _
    have hrow := h.row
    have hiff : (c' = t.cursorColumn ∧ r = t.cursorRow) ↔ (c' = p.col ∧ p.top + r = p.row) := by
      rw [h.col]
      omega
    rw [block_drawCell hf c color h.col_lt h.row_lt hc hr]
    simp only [Page.write, hiff, h.cells c' r hc hr]
  · intro c' r hr
    have hrow := h.row
    have hlt := h.row_lt
    have hgeom : (printed t c color).geom = t.geom := rfl
    rw [hgeom] at hr
    -- The cell written is in the window, so it is not below it.
    have hne : ¬ (c' = p.col ∧ r = p.row) := by
      simp only [Page.write] at hr
      omega
    simp only [Page.write, if_neg hne]
    exact h.below c' r hr

theorem eraseCell_shows {p : Page} {col row : Nat} (hf : t.geom.Fits)
    (hcol : (col : Int) < t.geom.vgaWidth) (hrow : (row : Int) < t.geom.vgaHeight)
    (h : Shows t p) : Shows (eraseCell t col row) (p.erase (p.top + row) col) := by
  refine ⟨rfl, hrow, rfl, hcol, ?_, ?_⟩
  · intro c r hc hr
    show block t.geom (drawCell t.geom t.screen col row 32 0) c r = _
    have hiff : (c = col ∧ r = row) ↔ (c = col ∧ p.top + r = p.top + row) := by omega
    rw [block_drawCell hf 32 0 hcol hrow hc hr, glyphBlock_space (by decide)]
    simp only [Page.erase, Page.write, hiff, h.cells c r hc hr]
  · intro c r hr
    simp only [Page.erase, Page.write]
    split
    · rfl
    · exact h.below c r hr

theorem moveCursor_shows {p : Page} {col : Nat} (hcol : (col : Int) < t.geom.vgaWidth)
    (h : Shows t p) : Shows (vgaMoveCursor t col t.cursorRow) { p with col := col } :=
  ⟨h.row, h.row_lt, rfl, hcol, h.cells, h.below⟩

theorem advance_shows {p : Page} {col : Nat} (hf : t.geom.Fits) (hg : t.geom.HasCells)
    (h : Shows t p) :
    Shows (if (col : Int) ≥ t.geom.vgaWidth then openRow t else vgaMoveCursor t col t.cursorRow)
      (p.advance t.geom col) := by
  unfold Page.advance
  split
  · exact openRow_shows hf hg h
  · exact moveCursor_shows (by omega) h

/-- Every character but backspace does to the screen what it does to the page. -/
theorem vgaPutc_shows {p : Page} {c : UInt8} (hf : t.geom.Fits) (hg : t.geom.HasCells)
    (hc : c ≠ 8) (color : UInt8) (h : Shows t p) :
    Shows (vgaPutc t c color) (p.putc t.geom c color) := by
  unfold vgaPutc Page.putc
  by_cases hctl : signedChar c ≤ 31
  · rw [if_pos hctl, if_pos hctl, if_neg hc]
    split
    · exact openRow_shows hf hg h
    · split
      · rw [h.col]
        exact advance_shows hf hg h
      · simpa using h
  · -- A glyph is drawn at the cursor, and the cursor goes on to the next column.
    rw [if_neg hctl, if_neg hctl, putGlyph_eq]
    have hprinted := printed_shows hf c color h
    have hcol : (printed t c color).cursorColumn = t.cursorColumn := rfl
    rw [h.col] at hprinted ⊢
    exact advance_shows (t := printed t c color) hf hg hprinted

/-! ## Outside the text grid -/

/-- A character that draws inside the grid changes no pixel outside it. -/
theorem vgaPutc_outside {c : UInt8} (hf : t.geom.Fits) (hg : t.geom.HasCells) (hc : c ≠ 8)
    (color : UInt8) (hcol : (t.cursorColumn : Int) < t.geom.vgaWidth)
    (hrow : (t.cursorRow : Int) < t.geom.vgaHeight) {x y : Nat} (hx : x < t.geom.pitchPx)
    (hy : y < t.geom.framebuffer.height)
    (hout : ¬ ((x : Int) < t.geom.vgaWidth * 8 ∧ (y : Int) < t.geom.vgaHeight * 8)) :
    pixel t.geom (vgaPutc t c color).screen x y = pixel t.geom t.screen x y := by
  have hopen : ∀ t' : Terminal, t'.geom = t.geom →
      pixel t.geom (openRow t').screen x y = pixel t.geom t'.screen x y := by
    intro t' hgeom
    unfold openRow
    dsimp only
    split
    · -- A scroll copies within the text area only.
      rw [← hgeom] at hf hg hx hy hout ⊢
      exact pixel_scroll_outside hf hg.height hx hy hout
    · rfl
  refine vgaPutc_cases
    (motive := fun t' => pixel t.geom t'.screen x y = pixel t.geom t.screen x y) t c color
    (fun _ => hopen t rfl) (fun _ => ?_) (fun h8 => absurd h8 hc) rfl (fun _ => ?_)
  · exact putTab_cases
      (motive := fun t' => pixel t.geom t'.screen x y = pixel t.geom t.screen x y) t
      (fun _ => hopen t rfl) (fun _ => rfl)
  · have hprinted : pixel t.geom (printed t c color).screen x y = pixel t.geom t.screen x y :=
      pixel_drawCell_outside hf c color hcol hrow hx hy hout
    exact putGlyph_cases
      (motive := fun t' => pixel t.geom t'.screen x y = pixel t.geom t.screen x y) t c color
      (fun _ => (hopen (printed t c color) rfl).trans hprinted) (fun _ => hprinted)

end Vga
end Feudos
