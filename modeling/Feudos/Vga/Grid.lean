import Feudos.Library.Run
import Feudos.Vga.Trace

/-!
# The text grid

When does the terminal stay inside its text grid?  Backspace at the start of a row takes its
column from `line_len`; when the row above is full that column is `VGA_WIDTH`, one past the last.
`history_inGrid_iff` says that this is the only way out of the grid.
-/

namespace Feudos
namespace Vga

open CountedLoop GuardedRun

variable {t : Terminal}

/-- A geometry with at least one text column and row, as `vga_init` limits it. -/
structure Geometry.HasCells (g : Geometry) : Prop where
  width : 1 ≤ g.vgaWidth
  height : 1 ≤ g.vgaHeight
  height_le : g.vgaHeight ≤ 256

theorem vgaInit_hasCells {gFramebuffer : Framebuffer}
    (hW : 1 ≤ (vgaInit gFramebuffer).vgaWidth) (hH : 1 ≤ (vgaInit gFramebuffer).vgaHeight) :
    (vgaInit gFramebuffer).HasCells :=
  ⟨hW, hH, vgaInit_vgaHeight_le gFramebuffer⟩

theorem history_geom (gFramebuffer : Framebuffer) (fb : Nat → UInt32) (color : UInt8)
    (ops : List Op) : (history gFramebuffer fb color ops).geom = vgaInit gFramebuffer :=
  foldl_invariant (I := fun t : Terminal => t.geom = vgaInit gFramebuffer)
    (fun t op h => (apply_geom t op).trans h) rfl

/-! ## The cursor row, whatever the columns do -/

theorem vgaPutc_cursorRow_lt (hg : t.geom.HasCells) (hrow : (t.cursorRow : Int) < t.geom.vgaHeight)
    (c color : UInt8) : ((vgaPutc t c color).cursorRow : Int) < t.geom.vgaHeight := by
  have hopen := openRow_cursorRow_lt hrow hg.height_le
  refine vgaPutc_cases (motive := fun t' => (t'.cursorRow : Int) < t.geom.vgaHeight) t c color
    (fun _ => hopen) (fun _ => ?_) (fun _ => ?_) hrow (fun _ => ?_)
  · exact putTab_cases (motive := fun t' => (t'.cursorRow : Int) < t.geom.vgaHeight) t
      (fun _ => hopen) (fun _ => hrow)
  · refine putBackspace_cases (motive := fun t' => (t'.cursorRow : Int) < t.geom.vgaHeight) t
      (fun _ _ => hrow) (fun _ _ => ?_) (fun _ => hrow)
    show ((t.cursorRow - 1 : Nat) : Int) < t.geom.vgaHeight
    omega
  · exact putGlyph_cases (motive := fun t' => (t'.cursorRow : Int) < t.geom.vgaHeight) t c color
      (fun _ => openRow_cursorRow_lt (t := printed t c color) hrow hg.height_le) (fun _ => hrow)

/-! ## The grid invariant -/

/-- What an access inside the text grid is: a drawn cell has a column and a row of the grid. -/
def inGridAccess (g : Geometry) : Access → Prop
  | .cell col row => (col : Int) < g.vgaWidth ∧ (row : Int) < g.vgaHeight
  | _ => True

theorem inGridAccess_allows (g : Geometry) : Allows g (inGridAccess g) where
  font _ _ := trivial
  cell _ _ hcol hrow := ⟨⟨hcol, hrow⟩, fun _ _ _ _ => trivial⟩
  pixel _ _ _ _ := trivial
  clear _ _ _ _ := trivial

/-- The cursor is in the grid, no line is longer than a row, and every cell drawn so far was in
the grid. -/
structure InGrid (t : Terminal) : Prop where
  row : (t.cursorRow : Int) < t.geom.vgaHeight
  column : (t.cursorColumn : Int) < t.geom.vgaWidth
  lineLen : ∀ r, ((t.lineLen.len r).toNat : Int) ≤ t.geom.vgaWidth
  cells : ∀ col row : Nat, .cell col row ∈ t.screen.trace →
    (col : Int) < t.geom.vgaWidth ∧ (row : Int) < t.geom.vgaHeight

theorem all_inGridAccess_iff :
    t.screen.All (inGridAccess t.geom) ↔ ∀ col row : Nat, .cell col row ∈ t.screen.trace →
      (col : Int) < t.geom.vgaWidth ∧ (row : Int) < t.geom.vgaHeight := by
  constructor
  · intro h col row hmem
    exact h _ hmem
  · intro h a hmem
    cases a with
    | cell col row =>
        exact h col row hmem
    | font i =>
        trivial
    | word i =>
        trivial

theorem inGrid_iff :
    InGrid t ↔ (t.cursorRow : Int) < t.geom.vgaHeight ∧ (t.cursorColumn : Int) < t.geom.vgaWidth ∧
      (∀ r, ((t.lineLen.len r).toNat : Int) ≤ t.geom.vgaWidth) ∧
      t.screen.All (inGridAccess t.geom) := by
  rw [all_inGridAccess_iff]
  exact ⟨fun h => ⟨h.row, h.column, h.lineLen, h.cells⟩, fun h => ⟨h.1, h.2.1, h.2.2.1, h.2.2.2⟩⟩

/-- A backspace at the start of a row whose upper neighbour is recorded as full. -/
def OntoFullRow (t : Terminal) : Op → Prop
  | .putc c _ =>
      c = 8 ∧ t.cursorColumn = 0 ∧ t.cursorRow ≠ 0 ∧
        t.geom.vgaWidth ≤ ((t.lineLen.len (t.cursorRow - 1)).toNat : Int)
  | .clearScreen _ => False

theorem ofNat_toNat_le (n : Nat) : (UInt8.ofNat n).toNat ≤ n := by
  rw [UInt8.toNat_ofNat']
  exact Nat.mod_le _ _

theorem store_lineLen_le {l : LineLen} {W : Int} {row v : Nat}
    (hl : ∀ r, ((l.len r).toNat : Int) ≤ W) (hv : (v : Int) ≤ W) (r : Nat) :
    (((l.store row v).len r).toNat : Int) ≤ W := by
  rw [store_len]
  split
  · have := ofNat_toNat_le v
    omega
  · exact hl r

theorem openRow_lineLen_le (hg : t.geom.HasCells) (hrow : (t.cursorRow : Int) < t.geom.vgaHeight)
    (hl : ∀ r, ((t.lineLen.len r).toNat : Int) ≤ t.geom.vgaWidth) (r : Nat) :
    (((openRow t).lineLen.len r).toNat : Int) ≤ t.geom.vgaWidth := by
  rw [openRow_eq hrow hg.height_le]
  split
  · exact hl r
  · show (((scrollLineLen t.geom t.lineLen).len r).toNat : Int) ≤ t.geom.vgaWidth
    rw [scrollLineLen_len _ _ hg.height]
    split
    · exact hl (r + 1)
    · split
      · have := hg.width
        simp only [UInt8.toNat_zero]
        omega
      · exact hl r

theorem openRow_inGrid (hg : t.geom.HasCells) (ht : InGrid t) : InGrid (openRow t) := by
  rw [inGrid_iff] at ht ⊢
  rcases ht with ⟨hrow, hcol, hlen, hall⟩
  have hwidth := hg.width
  simp only [openRow_geom, openRow_cursorColumn]
  exact ⟨openRow_cursorRow_lt hrow hg.height_le, by omega, openRow_lineLen_le hg hrow hlen,
    openRow_all (inGridAccess_allows _) hg.height hall⟩

theorem moveCursor_inGrid {x y : Nat} (ht : InGrid t) (hx : (x : Int) < t.geom.vgaWidth)
    (hy : (y : Int) < t.geom.vgaHeight) : InGrid (vgaMoveCursor t x y) :=
  ⟨hy, hx, ht.lineLen, ht.cells⟩

theorem printed_inGrid {c color : UInt8} (hc : 31 < signedChar c) (ht : InGrid t) :
    InGrid (printed t c color) := by
  have hcell := (inGridAccess_allows t.geom).cell _ _ ht.column ht.row
  have hall := printed_all color (inGridAccess_allows t.geom) hc hcell
    (all_inGridAccess_iff.2 ht.cells)
  have hcol := ht.column
  refine inGrid_iff.2 ⟨ht.row, ht.column, ?_, hall⟩
  intro r
  simp only [printed]
  -- A new length is one above the column, so at most the width.
  split
  · exact store_lineLen_le ht.lineLen (by omega) r
  · exact ht.lineLen r

theorem eraseCell_inGrid {col row : Nat} (ht : InGrid t) (hcol : (col : Int) < t.geom.vgaWidth)
    (hrow : (row : Int) < t.geom.vgaHeight) : InGrid (eraseCell t col row) := by
  have hcell := (inGridAccess_allows t.geom).cell _ _ hcol hrow
  have hall := eraseCell_all (inGridAccess_allows t.geom) hcell (all_inGridAccess_iff.2 ht.cells)
  refine inGrid_iff.2 ⟨hrow, hcol, ?_, hall⟩
  intro r
  simp only [eraseCell, vgaMoveCursor]
  split
  · exact store_lineLen_le ht.lineLen (by omega) r
  · exact ht.lineLen r

/-- One character keeps the terminal in its grid, unless it backspaces onto a full row. -/
theorem vgaPutc_inGrid {c color : UInt8} (hg : t.geom.HasCells) (ht : InGrid t)
    (hok : ¬ OntoFullRow t (.putc c color)) : InGrid (vgaPutc t c color) := by
  have hrow := ht.row
  have hcol := ht.column
  refine vgaPutc_cases t c color (fun _ => openRow_inGrid hg ht) (fun _ => ?_) (fun hc => ?_) ht
    (fun hc => ?_)
  · exact putTab_cases t (fun _ => openRow_inGrid hg ht)
      (fun hlt => moveCursor_inGrid ht hlt hrow)
  · refine putBackspace_cases t (fun _ _ => ht) (fun h0 hrow0 => ?_) (fun _ => ?_)
    · -- The row above is not full, so its end is a column of the grid.
      have hlen : ((t.lineLen.len (t.cursorRow - 1)).toNat : Int) < t.geom.vgaWidth :=
        Int.not_le.1 (fun hle => hok ⟨hc, h0, hrow0, hle⟩)
      have ht' : InGrid { t with lineLen := t.lineLen.touch (t.cursorRow - 1) } :=
        ⟨ht.row, ht.column, ht.lineLen, ht.cells⟩
      have hup : ((t.cursorRow - 1 : Nat) : Int) < t.geom.vgaHeight := by omega
      exact eraseCell_inGrid ht' hlen hup
    · exact eraseCell_inGrid ht (by omega) hrow
  · have hprinted : InGrid (printed t c color) := printed_inGrid hc ht
    exact putGlyph_cases t c color (fun _ => openRow_inGrid hg hprinted)
      (fun hlt => moveCursor_inGrid hprinted hlt hrow)

theorem clearLineLen_len (n : Nat) (l : LineLen) (r : Nat) :
    (range 0 n (fun i l => l.store i 0) l).len r = if r < n then 0 else l.len r := by
  refine range_induction 0 n (fun i l => l.store i 0) l
    (fun i l' => l'.len r = if r < i then 0 else l.len r) (Nat.zero_le n) (by simp) ?_
  intro i l' _ _ hI
  rw [store_len, hI]
  by_cases hr : r = i
  · simp [hr]
  · have hiff : r < i + 1 ↔ r < i := by omega
    simp [hr, hiff]

/-- A clear empties every row of the screen. -/
theorem vgaClearScreen_len (t : Terminal) (color : UInt8) {r : Nat}
    (hr : (r : Int) < t.geom.vgaHeight) : (vgaClearScreen t color).lineLen.len r = 0 := by
  have hr' : r < t.geom.vgaHeight.toNat := by omega
  simp only [vgaClearScreen, vgaMoveCursor, clearLineLen_len, if_pos hr']

theorem vgaClearScreen_inGrid {color : UInt8} (hg : t.geom.HasCells)
    (hlen : ∀ r, ((t.lineLen.len r).toNat : Int) ≤ t.geom.vgaWidth)
    (hall : t.screen.All (inGridAccess t.geom)) : InGrid (vgaClearScreen t color) := by
  have hwidth := hg.width
  have hheight := hg.height
  have hrow0 : ((0 : Nat) : Int) < t.geom.vgaHeight := by omega
  have hcol0 : ((0 : Nat) : Int) < t.geom.vgaWidth := by omega
  refine inGrid_iff.2 ⟨hrow0, hcol0, ?_, vgaClearScreen_all (inGridAccess_allows _) hall⟩
  intro r
  simp only [vgaClearScreen, vgaMoveCursor, clearLineLen_len]
  split
  · simp only [UInt8.toNat_zero]
    omega
  · exact hlen r

theorem started_inGrid {gFramebuffer : Framebuffer} (hg : (vgaInit gFramebuffer).HasCells)
    (fb : Nat → UInt32) (color : UInt8) : InGrid (started gFramebuffer fb color) := by
  have hwidth := hg.width
  refine vgaClearScreen_inGrid (t := Terminal.init gFramebuffer fb) hg ?_ ?_
  · intro r
    simp only [Terminal.init, UInt8.toNat_zero]
    omega
  · intro a ha
    cases ha

theorem apply_inGrid {op : Op} (hg : t.geom.HasCells) (ht : InGrid t)
    (hok : ¬ OntoFullRow t op) : InGrid (op.apply t) := by
  cases op with
  | putc c color =>
      exact vgaPutc_inGrid hg ht hok
  | clearScreen color =>
      exact vgaClearScreen_inGrid hg ht.lineLen (all_inGridAccess_iff.2 ht.cells)

/-- Backspacing onto a full row draws a cell outside the grid, and the trace remembers it. -/
theorem ontoFullRow_cell {op : Op} (hbad : OntoFullRow t op) :
    ∃ col row : Nat, .cell col row ∈ (op.apply t).screen.trace ∧ t.geom.vgaWidth ≤ (col : Int) := by
  cases op with
  | putc c color =>
      rcases hbad with ⟨rfl, hcol, hrow, hfull⟩
      refine ⟨(t.lineLen.len (t.cursorRow - 1)).toNat, t.cursorRow - 1, ?_, hfull⟩
      have hEq : Op.apply t (.putc 8 color) =
          eraseCell { t with lineLen := t.lineLen.touch (t.cursorRow - 1) }
            (t.lineLen.len (t.cursorRow - 1)).toNat (t.cursorRow - 1) := by
        have hctl : signedChar 8 ≤ 31 := by decide
        simp [Op.apply, vgaPutc, hctl, putBackspace, hcol, hrow]
      rw [hEq, eraseCell_screen]
      exact cell_mem_drawCell _ _ _ _ _ _
  | clearScreen color =>
      exact absurd hbad id

/-- A history stays in the grid exactly when it never backspaces onto a full row. -/
theorem history_inGrid_iff (gFramebuffer : Framebuffer) (fb : Nat → UInt32) (color : UInt8)
    (ops : List Op) (hW : 1 ≤ (vgaInit gFramebuffer).vgaWidth)
    (hH : 1 ≤ (vgaInit gFramebuffer).vgaHeight) :
    InGrid (history gFramebuffer fb color ops) ↔
      Guarded Op.apply (fun t op => ¬ OntoFullRow t op) (started gFramebuffer fb color) ops := by
  have hg : (vgaInit gFramebuffer).HasCells := vgaInit_hasCells hW hH
  have hstart : (started gFramebuffer fb color).geom = vgaInit gFramebuffer ∧
      InGrid (started gFramebuffer fb color) := ⟨rfl, started_inGrid hg fb color⟩
  have hstep : ∀ (t : Terminal) (op : Op), t.geom = vgaInit gFramebuffer ∧ InGrid t →
      ¬ OntoFullRow t op → (op.apply t).geom = vgaInit gFramebuffer ∧ InGrid (op.apply t) := by
    rintro t op ⟨hgeom, ht⟩ hok
    exact ⟨by rw [apply_geom, hgeom], apply_inGrid (hgeom ▸ hg) ht hok⟩
  constructor
  · intro hgrid
    by_contra hbad
    -- A step that breaks the guard leaves a cell outside the grid in every later trace.
    have hmark := not_guarded_foldl
      (M := fun t : Terminal => t.geom = vgaInit gFramebuffer ∧
        ∃ col row : Nat, .cell col row ∈ t.screen.trace ∧ t.geom.vgaWidth ≤ (col : Int))
      hstep ?_ ?_ hstart hbad
    · rcases hmark with ⟨_, col, row, hmem, hle⟩
      have hlt := (hgrid.cells col row hmem).1
      exact absurd hlt (Int.not_lt.2 hle)
    · -- The step that breaks the guard draws such a cell.
      rintro t op ⟨hgeom, _⟩ hnot
      refine ⟨by rw [apply_geom, hgeom], ?_⟩
      simpa only [apply_geom] using ontoFullRow_cell (Classical.not_not.1 hnot)
    · -- No later step removes it from the trace.
      rintro t op ⟨hgeom, col, row, hmem, hle⟩
      exact ⟨by rw [apply_geom, hgeom], col, row, apply_extends t op _ hmem,
        by rw [apply_geom]; exact hle⟩
  · intro hok
    exact (Guarded.invariant hstep hstart hok).2

/-- On an 80-column screen a printed character meets the condition. -/
theorem history_inGrid_iff_vga :
    1 ≤ (vgaInit vga640).vgaWidth ∧ 1 ≤ (vgaInit vga640).vgaHeight ∧
      InGrid (history vga640 (fun _ => 0) 0x0F [.putc 65 0x0F]) :=
  ⟨by decide, by decide,
    (history_inGrid_iff vga640 (fun _ => 0) 0x0F [.putc 65 0x0F] (by decide)
      (by decide)).2 ⟨fun h => absurd h.1 (by decide), trivial⟩⟩

/-- A framebuffer of one text column and two rows. -/
def oneColumn : Framebuffer :=
  { width := 8, height := 16, pitch := 32, addressable := by decide }

/-- One column and two rows: a character fills row 0, and the backspace after it goes to
column 1 of that row. -/
theorem fullRow_backspace_leaves_grid :
    1 ≤ (vgaInit oneColumn).vgaWidth ∧ 1 ≤ (vgaInit oneColumn).vgaHeight ∧
      ¬ InGrid (history oneColumn (fun _ => 0) 0x0F [.putc 97 0x0F, .putc 8 0x0F]) := by
  refine ⟨by decide, by decide, fun h => ?_⟩
  have hcol : (history oneColumn (fun _ => 0) 0x0F
      [.putc 97 0x0F, .putc 8 0x0F]).cursorColumn = 1 := by
    decide +kernel
  have hlt := h.column
  rw [hcol] at hlt
  exact absurd hlt (by decide +kernel)

end Vga
end Feudos
