import Feudos.Library.Run
import Feudos.Vga.Page

/-!
# The layout of a text

An independent account of what a text without backspaces looks like: it is laid out into rows of
at most `W` cells, and the screen shows the last `H` rows.  `screen_shows_layout` says that this
is what the framebuffer holds after every text, whatever was scrolled and copied on the way.
-/

namespace Feudos
namespace Vga

open CountedLoop GuardedRun

/-! ## Rows of cells -/

/-- A cell of the layout: the character and colour written there, if any. -/
abbrev Cell := Option (UInt8 × UInt8)

/-- A text laid out: the closed rows, and the row being written, whose length is the column. -/
structure Layout where
  closed : List (List Cell)
  current : List Cell

namespace Layout

def empty : Layout :=
  { closed := [], current := [] }

def openRow (l : Layout) : Layout :=
  { closed := l.closed ++ [l.current], current := [] }

/-- Add cells to the current row; a row that becomes full opens a new one at once. -/
def append (W : Nat) (l : Layout) (cells : List Cell) : Layout :=
  let l := { l with current := l.current ++ cells }
  if l.current.length ≥ W then l.openRow else l

/-- Lay out one more character in rows of `W` cells. -/
def putc (W : Nat) (l : Layout) (c color : UInt8) : Layout :=
  if c = 10 then
    l.openRow
  else if c = 9 then
    -- The cells up to the next even column stay unwritten.
    let skip := 2 - l.current.length % 2
    if l.current.length + skip ≥ W then l.openRow
    else { l with current := l.current ++ List.replicate skip none }
  else if 32 ≤ c.toNat ∧ c.toNat ≤ 127 then
    l.append W [some (c, color)]
  else
    l

def rows (l : Layout) : List (List Cell) :=
  l.closed ++ [l.current]

/-- Row `r` and column `c` of the layout; nothing is written beyond it. -/
def cell (l : Layout) (r c : Nat) : Cell :=
  (l.rows.getD r []).getD c none

/-- The last `H` rows. -/
def tail (l : Layout) (H : Nat) : List (List Cell) :=
  l.rows.drop (l.rows.length - H)

/-- The layout of a whole text. -/
def ofText (W : Nat) (text : List (UInt8 × UInt8)) : Layout :=
  text.foldl (fun l x => l.putc W x.1 x.2) empty

end Layout

/-- The pixel of a cell: its glyph in its colours, or black. -/
def cellPixel : Cell → Nat → Nat → UInt32
  | some (c, color), px, py => glyphPixel c color px py
  | none, _, _ => 0

/-! ## The page of a layout -/

namespace Layout

variable {l : Layout}

theorem rows_getD (l : Layout) (r : Nat) :
    l.rows.getD r [] =
      if r < l.closed.length then l.closed.getD r []
      else if r = l.closed.length then l.current else [] := by
  unfold rows
  simp only [List.getD_eq_getElem?_getD]
  by_cases hlt : r < l.closed.length
  · simp [hlt, List.getElem?_append_left hlt]
  · rw [if_neg hlt, List.getElem?_append_right (Nat.not_lt.1 hlt)]
    by_cases hEq : r = l.closed.length
    · simp [hEq]
    · have hsub : r - l.closed.length ≠ 0 := by omega
      rw [if_neg hEq, List.getElem?_singleton, if_neg hsub]
      rfl

@[simp] theorem cell_openRow (l : Layout) (r c : Nat) : l.openRow.cell r c = l.cell r c := by
  unfold cell
  rw [rows_getD, rows_getD]
  by_cases hlt : r < l.closed.length
  · have hlt' : r < l.closed.length + 1 := by omega
    simp [openRow, hlt, hlt']
  · by_cases hEq : r = l.closed.length
    · simp [openRow, hEq]
    · have hge : ¬ r < l.closed.length + 1 := by omega
      simp [openRow, hlt, hEq, hge]

/-- Cells added to the current row appear behind it; nothing else changes. -/
theorem cell_addCells (l : Layout) (cells : List Cell) (r c : Nat) :
    ({ l with current := l.current ++ cells } : Layout).cell r c =
      if r = l.closed.length ∧ l.current.length ≤ c then cells.getD (c - l.current.length) none
      else l.cell r c := by
  unfold cell
  rw [rows_getD, rows_getD]
  by_cases hlt : r < l.closed.length
  · have hne : ¬ (r = l.closed.length ∧ l.current.length ≤ c) := by omega
    simp only [if_pos hlt, if_neg hne]
  · by_cases hEq : r = l.closed.length
    · rw [if_neg hlt, if_pos hEq, if_neg hlt, if_pos hEq]
      simp only [List.getD_eq_getElem?_getD, hEq, true_and]
      by_cases hc : l.current.length ≤ c
      · rw [if_pos hc, List.getElem?_append_right hc]
      · rw [if_neg hc, List.getElem?_append_left (Nat.not_le.1 hc)]
    · have hne : ¬ (r = l.closed.length ∧ l.current.length ≤ c) := by omega
      simp only [if_neg hlt, if_neg hEq, if_neg hne]

/-- The current row ends at its length. -/
theorem cell_current_end (l : Layout) {c : Nat} (hc : l.current.length ≤ c) :
    l.cell l.closed.length c = none := by
  unfold cell
  rw [rows_getD, if_neg (Nat.lt_irrefl _), if_pos rfl]
  simp [List.getD_eq_getElem?_getD, List.getElem?_eq_none hc]

theorem cell_skip (l : Layout) (n r c : Nat) :
    ({ l with current := l.current ++ List.replicate n none } : Layout).cell r c = l.cell r c := by
  rw [cell_addCells]
  split
  · rename_i h
    rw [h.1, cell_current_end l h.2]
    simp only [List.getD_eq_getElem?_getD, List.getElem?_replicate]
    split <;> rfl
  · rfl

/-- The block of a cell. -/
def cellBlock (x : Cell) : Fin 8 → Fin 8 → UInt32 :=
  fun px py => cellPixel x px py

/-- A layout as a page with a window of `H` rows at its end. -/
def page (H : Nat) (l : Layout) : Page :=
  { top := l.closed.length + 1 - H
    row := l.closed.length
    col := l.current.length
    cell := fun r c => cellBlock (l.cell r c) }

theorem page_openRow {g : Geometry} {H : Nat} (hH : g.vgaHeight = H) (l : Layout) :
    l.openRow.page H = (l.page H).openRow g := by
  unfold page Page.openRow
  simp only [cell_openRow, hH]
  simp only [openRow, List.length_append, List.length_singleton, List.length_nil]
  congr 1
  split <;> omega

theorem page_write (H : Nat) (l : Layout) (c color : UInt8) :
    ({ l with current := l.current ++ [some (c, color)] } : Layout).page H =
      { (l.page H).write (l.page H).row (l.page H).col (glyphBlock c color) with
        col := l.current.length + 1 } := by
  unfold page Page.write
  congr 1
  · simp
  · funext r c'
    simp only [cell_addCells]
    by_cases hnow : c' = l.current.length ∧ r = l.closed.length
    · rcases hnow with ⟨rfl, rfl⟩
      simp only [Nat.le_refl, and_self, if_true, Nat.sub_self, List.getD_cons_zero]
      rfl
    · rw [if_neg hnow]
      split
      · rename_i h
        have hout : 1 ≤ c' - l.current.length := by omega
        rw [h.1, cell_current_end l h.2]
        simp [List.getD_eq_getElem?_getD, List.getElem?_eq_none, hout]
      · rfl

/-- A tab skips cells, and opens a row at the edge. -/
theorem page_tab {g : Geometry} {W H : Nat} (hW : g.vgaWidth = W) (hH : g.vgaHeight = H)
    (hlt : l.current.length < W) (hmax : W < 65534) (color : UInt8) :
    (l.putc W 9 color).page H = (l.page H).putc g 9 color := by
  have hctl : signedChar 9 ≤ 31 := by decide
  have hnl : (9 : UInt8) ≠ 10 := by decide
  have hcol : (l.page H).col = l.current.length := rfl
  have hu : u16 (l.current.length + (2 - l.current.length % 2)) =
      l.current.length + (2 - l.current.length % 2) := u16_of_lt (by omega)
  unfold putc Page.putc
  rw [if_neg hnl, if_pos rfl, if_pos hctl, if_neg hnl, if_pos rfl, Page.advance, hcol, hu, hW]
  by_cases hwrap : l.current.length + (2 - l.current.length % 2) ≥ W
  · rw [if_pos hwrap, if_pos (by omega)]
    exact page_openRow hH l
  · rw [if_neg hwrap, if_neg (by omega)]
    unfold page
    simp only [cell_skip, List.length_append, List.length_replicate]

/-- A printable character takes a cell, and opens a row when it was the last of its row. -/
theorem page_glyph {g : Geometry} {W H : Nat} (hW : g.vgaWidth = W) (hH : g.vgaHeight = H)
    (hlt : l.current.length < W) (hmax : W < 65534) {c : UInt8}
    (hprint : 32 ≤ c.toNat ∧ c.toNat ≤ 127) (color : UInt8) :
    (l.putc W c color).page H = (l.page H).putc g c color := by
  have hcode := signedChar_gt_iff c
  have hnot : ¬ signedChar c ≤ 31 := by omega
  have hnl : c ≠ 10 := by
    rintro rfl
    exact absurd hprint (by decide)
  have htab : c ≠ 9 := by
    rintro rfl
    exact absurd hprint (by decide)
  have hu : u16 (l.current.length + 1) = l.current.length + 1 := u16_of_lt (by omega)
  have hcol : (l.page H).col = l.current.length := rfl
  have hlen : (l.current ++ [some (c, color)]).length = l.current.length + 1 := by simp
  have hwrite := page_write H l c color
  unfold putc Page.putc
  rw [if_neg hnl, if_neg htab, if_pos hprint, if_neg hnot, append, Page.advance, hcol, hu, hW]
  simp only [hlen]
  by_cases hfull : l.current.length + 1 ≥ W
  · rw [if_pos hfull, if_pos (by omega), page_openRow hH, hwrite]
    rfl
  · rw [if_neg hfull, if_neg (by omega), hwrite]
    rfl

/-- Laying out a character is putting it on the page. -/
theorem page_putc {g : Geometry} {W H : Nat} (hW : g.vgaWidth = W) (hH : g.vgaHeight = H)
    (hlt : l.current.length < W) (hmax : W < 65534) (c color : UInt8) :
    (l.putc W c color).page H = (l.page H).putc g c color := by
  by_cases hprint : 32 ≤ c.toNat ∧ c.toNat ≤ 127
  · exact page_glyph hW hH hlt hmax hprint color
  · by_cases htab : c = 9
    · subst htab
      exact page_tab hW hH hlt hmax color
    · have hcode := signedChar_gt_iff c
      have hctl : signedChar c ≤ 31 := by omega
      unfold putc Page.putc
      rw [if_neg htab, if_neg hprint, if_pos hctl, if_neg htab]
      by_cases hnl : c = 10
      · rw [if_pos hnl, if_pos hnl]
        exact page_openRow hH l
      · -- The other control characters are ignored by both.
        rw [if_neg hnl, if_neg hnl]

theorem putc_current_lt {W : Nat} (hW : 0 < W) (hlt : l.current.length < W) (c color : UInt8) :
    (l.putc W c color).current.length < W := by
  unfold putc append
  dsimp only
  split
  · exact hW
  · split
    · split
      · exact hW
      · simp only [List.length_append, List.length_replicate]
        omega
    · split
      · split
        · exact hW
        · exact Nat.not_le.1 ‹_›
      · exact hlt

end Layout

/-! ## The screen shows the tail of the text -/

theorem page_empty_cell (H r c : Nat) : (Layout.empty.page H).cell r c = blankBlock := by
  have hcell : Layout.empty.cell r c = none := by
    unfold Layout.cell
    rw [Layout.rows_getD]
    by_cases hr : r = 0 <;> simp [Layout.empty, hr]
  simp only [Layout.page, hcell]
  rfl

/-- The cleared screen shows the empty layout. -/
theorem started_shows {f : Framebuffer} (hf : (vgaInit f).Fits) (hg : (vgaInit f).HasCells)
    {color : UInt8} (hbg : bgRgb color = 0) (fb : Nat → UInt32) {H : Nat}
    (hH : (vgaInit f).vgaHeight = H) : Shows (started f fb color) (Layout.empty.page H) := by
  have hwidth := hg.width
  have hheight := hg.height
  have htop : (Layout.empty.page H).top = 0 := by
    simp only [Layout.page, Layout.empty, List.length_nil]
    omega
  have hrow0 : ((0 : Nat) : Int) < (vgaInit f).vgaHeight := by omega
  have hcol0 : ((0 : Nat) : Int) < (vgaInit f).vgaWidth := by omega
  refine ⟨by rw [htop]; rfl, hrow0, rfl, hcol0, ?_, fun c r _ => page_empty_cell H r c⟩
  intro c r hc hr
  rw [page_empty_cell]
  funext px py
  have hpx := px.isLt
  have hpy := py.isLt
  have hfw := hf.width_le
  have hfp := hf.pitch
  have hfh := hf.height_le
  have hgeom : (started f fb color).geom = vgaInit f := rfl
  rw [hgeom] at hc hr
  -- The clear fills the framebuffer with the background, which is black, as blank cells are.
  have hfill := pixel_fillRect (s := (Terminal.init f fb).screen) hf 0 0
    (m := f.width) (n := f.height) (fun _ _ => bgRgb color) (X := c * 8 + px) (Y := r * 8 + py)
    (by simpa [vgaInit] using hfp) (by simp [vgaInit]) (by omega) (by omega)
  simp only [Nat.zero_add] at hfill
  have hin : (0 ≤ c * 8 + (px : Nat) ∧ c * 8 + (px : Nat) < f.width) ∧
      0 ≤ r * 8 + (py : Nat) ∧ r * 8 + (py : Nat) < f.height := by
    simp only [vgaInit] at hfw hfh hc hr
    omega
  rw [if_pos hin] at hfill
  exact hfill.trans hbg

/-- What holds along the run of a text: the terminal over `f` shows the layout so far, and the
pixels outside the text grid are those of `start`. -/
structure Follows (f : Framebuffer) (W H : Nat) (start t : Terminal) (l : Layout) : Prop where
  geom : t.geom = vgaInit f
  shows_page : Shows t (l.page H)
  current_lt : l.current.length < W
  outside : ∀ x y : Nat, x < f.pitch / 4 → y < f.height → ¬ (x < W * 8 ∧ y < H * 8) →
    pixel t.geom t.screen x y = pixel start.geom start.screen x y

section

variable {f : Framebuffer} {W H : Nat} {start t : Terminal} {l : Layout}

theorem follows_putc (hf : (vgaInit f).Fits) (hg : (vgaInit f).HasCells)
    (hW : (vgaInit f).vgaWidth = W) (hH : (vgaInit f).vgaHeight = H) (hmax : W < 65534)
    {c : UInt8} (hc : c ≠ 8) (color : UInt8) (h : Follows f W H start t l) :
    Follows f W H start (vgaPutc t c color) (l.putc W c color) := by
  have hgeom := h.geom
  have hwidth := hg.width
  have hstep := vgaPutc_shows (hgeom ▸ hf) (hgeom ▸ hg) hc color h.shows_page
  rw [← Layout.page_putc (hgeom ▸ hW) (hgeom ▸ hH) h.current_lt hmax] at hstep
  refine ⟨by rw [vgaPutc_geom, hgeom], hstep,
    Layout.putc_current_lt (by omega) h.current_lt c color, ?_⟩
  intro x y hx hy hout
  have hgrid : ¬ ((x : Int) < t.geom.vgaWidth * 8 ∧ (y : Int) < t.geom.vgaHeight * 8) := by
    rw [hgeom, hW, hH]
    omega
  rw [vgaPutc_geom, ← h.outside x y hx hy hout]
  exact vgaPutc_outside (hgeom ▸ hf) (hgeom ▸ hg) hc color h.shows_page.col_lt
    h.shows_page.row_lt (by rw [hgeom]; exact hx) (by rw [hgeom]; exact hy) hgrid

theorem follows_text (hf : (vgaInit f).Fits) (hg : (vgaInit f).HasCells)
    (hW : (vgaInit f).vgaWidth = W) (hH : (vgaInit f).vgaHeight = H) (hmax : W < 65534)
    {text : List (UInt8 × UInt8)} (hno : ∀ x ∈ text, x.1 ≠ 8) (h : Follows f W H start t l) :
    Follows f W H start (text.foldl (fun t x => vgaPutc t x.1 x.2) t)
      (text.foldl (fun l x => l.putc W x.1 x.2) l) := by
  induction text generalizing t l with
  | nil =>
      exact h
  | cons x rest ih =>
      have hx : x.1 ≠ 8 := hno x (List.mem_cons_self ..)
      exact ih (fun y hy => hno y (List.mem_cons_of_mem _ hy))
        (follows_putc hf hg hW hH hmax hx x.2 h)

end

/-- After every text without backspaces the framebuffer shows the last rows of its layout, the
cursor is at the layout's end, and no word outside the text grid has changed since the clear. -/
theorem screen_shows_layout (f : Framebuffer) (fb : Nat → UInt32) (color : UInt8)
    (text : List (UInt8 × UInt8)) (hpitch : f.width ≤ f.pitch / 4)
    (hw : 8 ≤ f.width) (hw' : f.width < 65536)
    (hh : 8 ≤ f.height) (hh' : f.height < 65536) (hbg : bgRgb color = 0)
    (hnoBackspace : ∀ x ∈ text, x.1 ≠ 8) :
    let W := f.width / 8
    let H := min (f.height / 8) 256
    let start := started f fb color
    let t := text.foldl (fun t x => vgaPutc t x.1 x.2) start
    let l := Layout.ofText W text
    (∀ c r : Nat, c < W → r < H → ∀ px py : Nat, px < 8 → py < 8 →
      pixel t.geom t.screen (c * 8 + px) (r * 8 + py) =
        cellPixel (((l.tail H).getD r []).getD c none) px py) ∧
    t.cursorColumn = l.current.length ∧
    t.cursorRow = min l.closed.length (H - 1) ∧
    ∀ x y : Nat, x < f.pitch / 4 → y < f.height → ¬ (x < W * 8 ∧ y < H * 8) →
      pixel t.geom t.screen x y = pixel start.geom start.screen x y := by
  intro W H start t l
  have hW : (vgaInit f).vgaWidth = W := vgaInit_vgaWidth hw'
  have hH : (vgaInit f).vgaHeight = H := vgaInit_vgaHeight hh'
  have hW1 : 1 ≤ W := by simp only [W]; omega
  have hH1 : 1 ≤ H := by simp only [H]; omega
  have hmax : W < 65534 := by simp only [W]; omega
  have hg : (vgaInit f).HasCells := vgaInit_hasCells (by omega) (by omega)
  have hf : (vgaInit f).Fits := vgaInit_fits hpitch
  have hstart : Follows f W H start start Layout.empty :=
    ⟨rfl, started_shows hf hg hbg fb hH, hW1, fun _ _ _ _ _ => rfl⟩
  have hend : Follows f W H start t l := follows_text hf hg hW hH hmax hnoBackspace hstart
  have hshows := hend.shows_page
  refine ⟨?_, hshows.col.symm, ?_, hend.outside⟩
  · intro c r hc hr px py hpx hpy
    have hblock := hshows.cells c r (by rw [hend.geom, hW]; omega) (by rw [hend.geom, hH]; omega)
    have hpixel := congrFun (congrFun hblock ⟨px, hpx⟩) ⟨py, hpy⟩
    -- Row `r` of the screen is row `r` of the last `H` rows of the text.
    have hrow : (l.tail H).getD r [] = l.rows.getD (l.closed.length + 1 - H + r) [] := by
      simp [Layout.tail, Layout.rows, List.getD_eq_getElem?_getD, List.getElem?_drop]
    rw [hrow]
    exact hpixel
  · have hrow : l.closed.length = l.closed.length + 1 - H + t.cursorRow := hshows.row
    have hlt := hshows.row_lt
    rw [hend.geom, hH] at hlt
    omega

/-- On a 640x480 screen, a line and a tab. -/
theorem screen_shows_layout_vga :
    let start := started vga640 (fun _ => 0) 0x0F
    let t := [((65 : UInt8), (0x0F : UInt8)), (10, 0x0F), (9, 0x0F)].foldl
      (fun t x => vgaPutc t x.1 x.2) start
    let l := Layout.ofText 80 [(65, 0x0F), (10, 0x0F), (9, 0x0F)]
    (∀ c r : Nat, c < 80 → r < 60 → ∀ px py : Nat, px < 8 → py < 8 →
      pixel t.geom t.screen (c * 8 + px) (r * 8 + py) =
        cellPixel (((l.tail 60).getD r []).getD c none) px py) ∧
    t.cursorColumn = l.current.length ∧ t.cursorRow = min l.closed.length (60 - 1) ∧
    ∀ x y : Nat, x < 640 → y < 480 → ¬ (x < 80 * 8 ∧ y < 60 * 8) →
      pixel t.geom t.screen x y = pixel start.geom start.screen x y :=
  screen_shows_layout vga640 (fun _ => 0) 0x0F [(65, 0x0F), (10, 0x0F), (9, 0x0F)]
    (by decide) (by decide) (by decide) (by decide) (by decide) (by decide) (by decide)

end Vga
end Feudos
