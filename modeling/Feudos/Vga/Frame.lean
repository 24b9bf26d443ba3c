import Feudos.Vga.Pixels

/-!
# What a character leaves alone

The cells before a position of the screen, which may scroll: no character changes them as long as
the cursor stays at that position or after it.

- `scrolls`         : how often `vga_putc` calls `vga_up`;
- `Before`, `After` : the cells before the cursor of a terminal, and the places from there on;
- `KeepsCells`      : the cells before the cursor are still shown, moved up by the scrolls;
- `vgaPutc_kept`    : a character that stays after the position keeps them.
-/

namespace Feudos
namespace Vga

open CountedLoop

variable {g : Geometry} {s : Screen} {t₀ t : Terminal} {n : Nat}

/-! ## Counting the scrolls -/

/-- The calls of `vga_up` when the cursor goes to the next row. -/
def rowScrolls (t : Terminal) : Nat :=
  if (u16 (t.cursorRow + 1) : Int) ≥ t.geom.vgaHeight then 1 else 0

/-- The calls of `vga_up` in `vga_putc`, branch by branch. -/
def scrolls (t : Terminal) (c : UInt8) : Nat :=
  if signedChar c ≤ 31 then
    if c = 10 then rowScrolls t
    else if c = 9 then
      if (u16 (t.cursorColumn + (2 - t.cursorColumn % 2)) : Int) ≥ t.geom.vgaWidth then
        rowScrolls t
      else 0
    else 0
  else if (u16 (t.cursorColumn + 1) : Int) ≥ t.geom.vgaWidth then rowScrolls t
  else 0

/-! ## Cells that a drawn cell does not touch -/

theorem drawCell_fb_of_ne {col row i : Nat} (c color : UInt8)
    (hi : ∀ y x, y < 8 → x < 8 → u64 ((row * 8 + y) * g.pitchPx + (col * 8 + x)) ≠ i) :
    (drawCell g s col row c color).fb i = s.fb i := by
  have hnoted : ((s.note (.cell col row)).note (.font c.toNat)).fb i = s.fb i := rfl
  simp only [drawCell]
  refine (range_frame (fun s' : Screen => s'.fb i) ?_).trans hnoted
  intro y s' _ hy
  refine range_frame (fun s'' : Screen => s''.fb i) ?_
  intro x s'' _ hx
  exact Function.update_of_ne (hi y x hy hx).symm _ _

theorem vgaInit_words_le (f : Framebuffer) :
    (vgaInit f).pitchPx * (vgaInit f).framebuffer.height ≤ 2 ^ 62 := by
  have hquarter : f.pitch / 4 * 4 ≤ f.pitch := Nat.div_mul_le_self _ _
  have hwords : f.pitch / 4 * f.height * 4 ≤ 2 ^ 62 * 4 := by
    calc
      f.pitch / 4 * f.height * 4 = f.pitch / 4 * 4 * f.height := Nat.mul_right_comm _ _ _
      _ ≤ f.pitch * f.height := Nat.mul_le_mul_right _ hquarter
      _ ≤ 2 ^ 62 * 4 := f.addressable
  exact Nat.le_of_mul_le_mul_right hwords (by decide)

/-- The words of a row come before the rows that come later. -/
theorem word_lt_row {p x y y' : Nat} (hx : x < p) (hy : y < y') : y * p + x < y' * p := by
  calc
    y * p + x < y * p + p := Nat.add_lt_add_left hx _
    _ = (y + 1) * p := (Nat.succ_mul y p).symm
    _ ≤ y' * p := Nat.mul_le_mul_right p hy

/-- Right of the framebuffer, too, an index on one of its rows does not wrap around. -/
theorem row_index_lt {p h x y : Nat} (hwords : p * h ≤ 2 ^ 62) (hy : y < h)
    (hx : x < p ∨ x < 2 ^ 62) : y * p + x < 2 ^ 64 := by
  have hrows : y * p ≤ 2 ^ 62 := by
    calc
      y * p ≤ h * p := Nat.mul_le_mul_right p (Nat.le_of_lt hy)
      _ = p * h := Nat.mul_comm h p
      _ ≤ 2 ^ 62 := hwords
  have hrow : p ≤ 2 ^ 62 := Nat.le_trans (Nat.le_mul_of_pos_right p (by omega)) hwords
  omega

/-- A cell drawn on a later row, or further to the right, leaves a block alone.  The cell may lie
to the right of the text grid: on a later row it only runs on to rows that come later still. -/
theorem block_drawCell_before (hf : g.Fits)
    (hwords : g.pitchPx * g.framebuffer.height ≤ 2 ^ 62) {col row c r : Nat} (ch color : UInt8)
    (hcol : (col : Int) < g.vgaWidth ∨ col ≤ 255) (hrow : (row : Int) < g.vgaHeight)
    (hc : (c : Int) < g.vgaWidth)
    (hbefore : r < row ∨ r = row ∧ c < col ∧ col * 8 + 8 ≤ g.pitchPx) :
    block g (drawCell g s col row ch color) c r = block g s c r := by
  have hwidth := hf.width_le
  have hpitch := hf.pitch
  have hheight := hf.height_le
  funext px py
  have hpx := px.isLt
  have hpy := py.isLt
  have hX : c * 8 + px < g.pitchPx := by omega
  have hY : r * 8 + py < g.framebuffer.height := by omega
  refine drawCell_fb_of_ne ch color (fun y x hy hx => ?_)
  rcases hbefore with hlater | ⟨rfl, hright, hfits⟩
  · -- Row by row the words of the block come first, and no index wraps around.
    have hless : (r * 8 + py) * g.pitchPx + (c * 8 + px) < (row * 8 + y) * g.pitchPx :=
      word_lt_row hX (by omega)
    have hend : (row * 8 + y) * g.pitchPx + (col * 8 + x) < 2 ^ 64 :=
      row_index_lt hwords (by omega) (by omega)
    rw [u64_of_lt hend, u64_of_lt (pixelIndex_lt hf hX hY)]
    omega
  · -- On the same row both are within the pixel row, so equal words are equal pixels.
    intro hEq
    have hsame := (pixelIndex_inj hf (by omega) (by omega) hX hY).1 hEq
    omega

/-! ## Before and after the cursor -/

/-- The cell in row `r` and column `c` comes before the cursor of `t₀`. -/
def Before (t₀ : Terminal) (r c : Nat) : Prop :=
  r < t₀.cursorRow ∨ (r = t₀.cursorRow ∧ c < t₀.cursorColumn)

/-- After `n` scrolls the place in row `row` and column `col` comes at the cursor of `t₀` or after
it.  On the same row a cell drawn there must end within the pixel row. -/
def After (t₀ : Terminal) (n row col : Nat) : Prop :=
  t₀.cursorRow < n + row ∨
  (n + row = t₀.cursorRow ∧ t₀.cursorColumn ≤ col ∧
    (t₀.cursorColumn = 0 ∨ col * 8 + 8 ≤ t₀.geom.pitchPx))

instance (t₀ : Terminal) (r c : Nat) : Decidable (Before t₀ r c) :=
  inferInstanceAs (Decidable (_ ∨ _))

instance (t₀ : Terminal) (n row col : Nat) : Decidable (After t₀ n row col) :=
  inferInstanceAs (Decidable (_ ∨ _))

/-- After `n` scrolls the cells before the cursor of `t₀` show what they did, moved up; the first
`n` rows are gone. -/
def KeepsCells (t₀ : Terminal) (n : Nat) (s : Screen) : Prop :=
  ∀ r c : Nat, Before t₀ r c → (c : Int) < t₀.geom.vgaWidth → n ≤ r →
    block t₀.geom s c (r - n) = block t₀.geom t₀.screen c r

/-- The cell that a backspace blanks, by row and column. -/
def backspaceCell (t : Terminal) : Option (Nat × Nat) :=
  if t.cursorColumn = 0 then
    if t.cursorRow = 0 then none
    else some (t.cursorRow - 1, (t.lineLen.len (t.cursorRow - 1)).toNat)
  else some (t.cursorRow, t.cursorColumn - 1)

/-- A character that stays after the cursor of `t₀`: a backspace blanks a cell there, and the
column of the next cell is no more than 16 bits hold. -/
def StaysAfter (t₀ : Terminal) (n : Nat) (t : Terminal) (c : UInt8) : Prop :=
  (c = 8 → ∀ cell ∈ backspaceCell t, After t₀ n cell.1 cell.2) ∧
  (c = 9 → t.cursorColumn + (2 - t.cursorColumn % 2) < 2 ^ 16) ∧
  (31 < signedChar c → t.cursorColumn + 1 < 2 ^ 16)

instance (t₀ : Terminal) (n : Nat) (t : Terminal) (c : UInt8) :
    Decidable (StaysAfter t₀ n t c) :=
  inferInstanceAs (Decidable (_ ∧ _ ∧ _))

/-! ## What one character keeps -/

/-- The cursor is on the screen and after the cursor of `t₀`, and the cells before that are kept.
A column beyond the grid comes from `line_len`. -/
structure Kept (t₀ : Terminal) (n : Nat) (t : Terminal) : Prop where
  geom : t.geom = t₀.geom
  row : (t.cursorRow : Int) < t.geom.vgaHeight
  column : (t.cursorColumn : Int) < t.geom.vgaWidth ∨ t.cursorColumn ≤ 255
  after : After t₀ n t.cursorRow t.cursorColumn
  cells : KeepsCells t₀ n t.screen

/-- What is fixed: the framebuffer is that of `vga_init`, and `t₀` has its cursor on the screen. -/
structure Framed (t₀ : Terminal) : Prop where
  fits : t₀.geom.Fits
  words : t₀.geom.pitchPx * t₀.geom.framebuffer.height ≤ 2 ^ 62
  height_le : t₀.geom.vgaHeight ≤ 256
  row : (t₀.cursorRow : Int) < t₀.geom.vgaHeight

theorem drawCell_keepsCells (h₀ : Framed t₀) {col row : Nat} (c color : UInt8)
    (hcol : (col : Int) < t₀.geom.vgaWidth ∨ col ≤ 255) (hrow : (row : Int) < t₀.geom.vgaHeight)
    (hafter : After t₀ n row col) (h : KeepsCells t₀ n s) :
    KeepsCells t₀ n (drawCell t₀.geom s col row c color) := by
  intro r c' hbefore hc hn
  have hother : r - n < row ∨ r - n = row ∧ c' < col ∧ col * 8 + 8 ≤ t₀.geom.pitchPx := by
    unfold After at hafter
    unfold Before at hbefore
    omega
  rw [block_drawCell_before h₀.fits h₀.words c color hcol hrow hc hother]
  exact h r c' hbefore hc hn

theorem scrollPixels_keepsCells (h₀ : Framed t₀) (h : KeepsCells t₀ n s) :
    KeepsCells t₀ (n + 1) (scrollPixels t₀.geom s) := by
  intro r c hbefore hc hn
  have hrow := h₀.row
  have hlt : (r : Int) < t₀.geom.vgaHeight := by
    unfold Before at hbefore
    omega
  have hup : r - (n + 1) + 1 = r - n := by omega
  rw [block_scroll h₀.fits (by omega) hc (by omega), if_pos (by omega), hup]
  exact h r c hbefore hc (by omega)

theorem openRow_kept (h₀ : Framed t₀) (h : Kept t₀ n t) :
    Kept t₀ (n + rowScrolls t) (openRow t) := by
  have hrow := h.row
  have hafter := h.after
  have hheight := h₀.height_le
  rw [← h.geom] at hheight
  have hu : u16 (t.cursorRow + 1) = t.cursorRow + 1 := u16_of_lt (by omega)
  unfold After at hafter
  rw [openRow_eq hrow hheight, rowScrolls, hu]
  -- With or without a scroll the cursor is one row further down the page.
  by_cases hroom : (t.cursorRow : Int) + 1 < t.geom.vgaHeight
  · rw [if_pos hroom, if_neg (by omega)]
    exact ⟨h.geom, hroom, Or.inr (Nat.zero_le _), Or.inl (by simp only [vgaMoveCursor]; omega),
      h.cells⟩
  · rw [if_neg hroom, if_pos (by omega)]
    refine ⟨h.geom, hrow, Or.inr (Nat.zero_le _), Or.inl (by simp only [vgaMoveCursor]; omega), ?_⟩
    simp only [vgaMoveCursor, vgaUp, h.geom]
    exact scrollPixels_keepsCells h₀ h.cells

theorem printed_kept (h₀ : Framed t₀) (h : Kept t₀ n t) (c color : UInt8) :
    Kept t₀ n (printed t c color) := by
  have hrow := h.row
  have hcol := h.column
  rw [h.geom] at hrow hcol
  refine ⟨h.geom, h.row, h.column, h.after, ?_⟩
  simp only [printed, h.geom]
  exact drawCell_keepsCells h₀ c color hcol hrow h.after h.cells

theorem eraseCell_kept (h₀ : Framed t₀) (h : Kept t₀ n t) {col row : Nat}
    (hcol : (col : Int) < t.geom.vgaWidth ∨ col ≤ 255) (hrow : (row : Int) < t.geom.vgaHeight)
    (hafter : After t₀ n row col) : Kept t₀ n (eraseCell t col row) := by
  refine ⟨h.geom, hrow, hcol, hafter, ?_⟩
  rw [h.geom] at hcol hrow
  simp only [eraseCell_screen, h.geom]
  exact drawCell_keepsCells h₀ 32 0 hcol hrow hafter h.cells

/-- The cursor moves on in its row. -/
theorem moveCursor_kept (hf : t₀.geom.Fits) (h : Kept t₀ n t) {col : Nat}
    (hle : t.cursorColumn ≤ col) (hcol : (col : Int) < t.geom.vgaWidth) :
    Kept t₀ n (vgaMoveCursor t col t.cursorRow) := by
  have hafter := h.after
  have hwidth := hf.width_le
  have hpitch := hf.pitch
  rw [h.geom] at hcol
  refine ⟨h.geom, h.row, Or.inl (h.geom ▸ hcol), ?_, h.cells⟩
  simp only [After, vgaMoveCursor] at hafter ⊢
  omega

theorem putBackspace_kept (h₀ : Framed t₀) (h : Kept t₀ n t)
    (hstays : ∀ cell ∈ backspaceCell t, After t₀ n cell.1 cell.2) :
    Kept t₀ n (putBackspace t) := by
  have hrow := h.row
  have hcolumn := h.column
  unfold backspaceCell at hstays
  refine putBackspace_cases t (fun _ _ => h) (fun hcol htop => ?_) (fun hcol => ?_)
  · rw [if_pos hcol, if_neg htop] at hstays
    have hlen := (t.lineLen.len (t.cursorRow - 1)).toNat_lt
    -- Reading `line_len` changes nothing that is kept.
    have htouched : Kept t₀ n { t with lineLen := t.lineLen.touch (t.cursorRow - 1) } :=
      ⟨h.geom, h.row, h.column, h.after, h.cells⟩
    exact eraseCell_kept h₀ htouched (Or.inr (by omega)) (by simp only; omega) (hstays _ rfl)
  · rw [if_neg hcol] at hstays
    exact eraseCell_kept h₀ h (by omega) hrow (hstays _ rfl)

/-- A character that stays after the cursor of `t₀` keeps the cells before it. -/
theorem vgaPutc_kept (h₀ : Framed t₀) (h : Kept t₀ n t) {c : UInt8} (color : UInt8)
    (hstays : StaysAfter t₀ n t c) : Kept t₀ (n + scrolls t c) (vgaPutc t c color) := by
  rcases hstays with ⟨hbackspace, htab, hglyph⟩
  unfold vgaPutc scrolls
  by_cases hctl : signedChar c ≤ 31
  · rw [if_pos hctl, if_pos hctl]
    by_cases h10 : c = 10
    · rw [if_pos h10, if_pos h10]
      exact openRow_kept h₀ h
    · rw [if_neg h10, if_neg h10]
      by_cases h9 : c = 9
      · have hu := u16_of_lt (htab h9)
        rw [if_pos h9, if_pos h9, putTab, hu]
        split
        · exact openRow_kept h₀ h
        · exact moveCursor_kept h₀.fits h (by omega) (by omega)
      · rw [if_neg h9, if_neg h9]
        by_cases h8 : c = 8
        · rw [if_pos h8]
          exact putBackspace_kept h₀ h (hbackspace h8)
        · rw [if_neg h8]
          exact h
  · -- The glyph is drawn at the cursor, which is after the cursor of `t₀`.
    have hu := u16_of_lt (hglyph (by omega))
    have hprinted := printed_kept h₀ h c color
    rw [if_neg hctl, if_neg hctl, putGlyph_eq, hu]
    split
    · exact openRow_kept h₀ hprinted
    · exact moveCursor_kept h₀.fits hprinted (Nat.le_succ _) (by simp only [printed]; omega)

end Vga
end Feudos
