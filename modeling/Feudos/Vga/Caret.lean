import Feudos.Vga.Terminal

/-!
# What each call does to the cursor and the line lengths

The pixels never decide where the cursor goes, so the control part of `vga_putc` can be described
without them.  This module has:

- `vgaPutc_cases`  : the five things a character can do, as a case principle;
- `openRow_*`      : the effect of going to the next row, with and without a scroll;
- `*_geom`, `*_textColor` : what no call changes;
- `scrollLineLen_len`, `eraseCell_len`, `printed_len` : the line lengths after each of them.
-/

namespace Feudos
namespace Vga

open CountedLoop

variable {g : Geometry} {s : Screen} {t : Terminal}

/-! ## Machine integers -/

theorem u16_of_lt {n : Nat} (h : n < 65536) : u16 n = n :=
  Nat.mod_eq_of_lt h

theorem u64_of_lt {n : Nat} (h : n < 2 ^ 64) : u64 n = n :=
  Nat.mod_eq_of_lt h

theorem u64_le (n : Nat) : u64 n ≤ n :=
  Nat.mod_le _ _

theorem signedChar_gt_iff (c : UInt8) : 31 < signedChar c ↔ 32 ≤ c.toNat ∧ c.toNat < 128 := by
  have hc : c.toNat < 256 := c.toNat_lt
  unfold signedChar
  split <;> omega

/-- `vga_init` limits the number of rows. -/
theorem vgaInit_vgaHeight_le (gFramebuffer : Framebuffer) :
    (vgaInit gFramebuffer).vgaHeight ≤ 256 := by
  by_cases h : toInt (gFramebuffer.height / glyphH) > maxRows
  · simp only [vgaInit, if_pos h]
    decide
  · simp only [vgaInit, if_neg h]
    exact Int.not_lt.1 h

/-! ## The five things a character does -/

/-- The state of `vga_putc` after the glyph is drawn and before the cursor moves. -/
def printed (t : Terminal) (c color : UInt8) : Terminal :=
  { t with
    screen := drawCell t.geom t.screen t.cursorColumn t.cursorRow c color
    lineLen :=
      if t.cursorColumn + 1 > (t.lineLen.len t.cursorRow).toNat then
        (t.lineLen.touch t.cursorRow).store t.cursorRow (t.cursorColumn + 1)
      else
        t.lineLen.touch t.cursorRow }

@[simp] theorem eraseCell_screen (t : Terminal) (col row : Nat) :
    (eraseCell t col row).screen = drawCell t.geom t.screen col row 32 0 := rfl

theorem putGlyph_eq (t : Terminal) (c color : UInt8) :
    putGlyph t c color =
      if (u16 (t.cursorColumn + 1) : Int) ≥ t.geom.vgaWidth then
        openRow (printed t c color)
      else
        vgaMoveCursor (printed t c color) (u16 (t.cursorColumn + 1)) t.cursorRow := rfl

theorem vgaPutc_cases {motive : Terminal → Prop} (t : Terminal) (c color : UInt8)
    (newline : c = 10 → motive (openRow t))
    (tab : c = 9 → motive (putTab t))
    (backspace : c = 8 → motive (putBackspace t))
    (ignored : motive t)
    (glyph : 31 < signedChar c → motive (putGlyph t c color)) :
    motive (vgaPutc t c color) := by
  unfold vgaPutc
  -- The tests in the order of the source: control character or not, then which.
  split
  · split
    · exact newline ‹_›
    · split
      · exact tab ‹_›
      · split
        · exact backspace ‹_›
        · exact ignored
  · exact glyph (by omega)

theorem putTab_cases {motive : Terminal → Prop} (t : Terminal)
    (wrap : t.geom.vgaWidth ≤ (u16 (t.cursorColumn + (2 - t.cursorColumn % 2)) : Int) →
      motive (openRow t))
    (move : (u16 (t.cursorColumn + (2 - t.cursorColumn % 2)) : Int) < t.geom.vgaWidth →
      motive (vgaMoveCursor t (u16 (t.cursorColumn + (2 - t.cursorColumn % 2))) t.cursorRow)) :
    motive (putTab t) := by
  unfold putTab
  dsimp only
  split
  · exact wrap ‹_›
  · exact move (by omega)

theorem putGlyph_cases {motive : Terminal → Prop} (t : Terminal) (c color : UInt8)
    (wrap : t.geom.vgaWidth ≤ (u16 (t.cursorColumn + 1) : Int) →
      motive (openRow (printed t c color)))
    (move : (u16 (t.cursorColumn + 1) : Int) < t.geom.vgaWidth →
      motive (vgaMoveCursor (printed t c color) (u16 (t.cursorColumn + 1)) t.cursorRow)) :
    motive (putGlyph t c color) := by
  rw [putGlyph_eq]
  split
  · exact wrap ‹_›
  · exact move (by omega)

theorem putBackspace_cases {motive : Terminal → Prop} (t : Terminal)
    (corner : t.cursorColumn = 0 → t.cursorRow = 0 → motive t)
    (up : t.cursorColumn = 0 → t.cursorRow ≠ 0 →
      motive (eraseCell { t with lineLen := t.lineLen.touch (t.cursorRow - 1) }
        (t.lineLen.len (t.cursorRow - 1)).toNat (t.cursorRow - 1)))
    (left : t.cursorColumn ≠ 0 → motive (eraseCell t (t.cursorColumn - 1) t.cursorRow)) :
    motive (putBackspace t) := by
  unfold putBackspace
  split
  · split
    · exact corner ‹_› ‹_›
    · exact up ‹_› ‹_›
  · exact left ‹_›

/-! ## Geometry, cursor and line lengths after each call -/

@[simp] theorem openRow_geom (t : Terminal) : (openRow t).geom = t.geom := by
  unfold openRow
  dsimp only
  split <;> rfl

@[simp] theorem openRow_textColor (t : Terminal) : (openRow t).textColor = t.textColor := by
  unfold openRow
  dsimp only
  split <;> rfl

@[simp] theorem openRow_cursorColumn (t : Terminal) : (openRow t).cursorColumn = 0 := by
  unfold openRow
  dsimp only
  split <;> rfl

/-- On a row of the screen, `openRow` goes one row down without touching anything else, or
scrolls and stays. -/
theorem openRow_eq (hrow : (t.cursorRow : Int) < t.geom.vgaHeight)
    (hrows : t.geom.vgaHeight ≤ 256) :
    openRow t =
      if (t.cursorRow : Int) + 1 < t.geom.vgaHeight then vgaMoveCursor t 0 (t.cursorRow + 1)
      else vgaMoveCursor (vgaUp t) 0 t.cursorRow := by
  -- With at most 256 rows no conversion to `uint16_t` loses anything.
  have hu : u16 (t.cursorRow + 1) = t.cursorRow + 1 := u16_of_lt (by omega)
  have hlast : u16 (t.geom.vgaHeight - 1).toNat = (t.geom.vgaHeight - 1).toNat :=
    u16_of_lt (by omega)
  unfold openRow
  simp only [hu, hlast]
  by_cases hlt : (t.cursorRow : Int) + 1 < t.geom.vgaHeight
  · have hnot : ¬ ((t.cursorRow + 1 : Nat) : Int) ≥ t.geom.vgaHeight := by omega
    rw [if_neg hnot, if_pos hlt]
  · have hge : ((t.cursorRow + 1 : Nat) : Int) ≥ t.geom.vgaHeight := by omega
    have hEq : (t.geom.vgaHeight - 1).toNat = t.cursorRow := by omega
    rw [if_pos hge, if_neg hlt, hEq]

theorem openRow_cursorRow (hrow : (t.cursorRow : Int) < t.geom.vgaHeight)
    (hrows : t.geom.vgaHeight ≤ 256) :
    (openRow t).cursorRow =
      if (t.cursorRow : Int) + 1 < t.geom.vgaHeight then t.cursorRow + 1 else t.cursorRow := by
  rw [openRow_eq hrow hrows]
  split <;> rfl

theorem openRow_cursorRow_lt (hrow : (t.cursorRow : Int) < t.geom.vgaHeight)
    (hrows : t.geom.vgaHeight ≤ 256) :
    ((openRow t).cursorRow : Int) < t.geom.vgaHeight := by
  rw [openRow_cursorRow hrow hrows]
  split <;> omega

@[simp] theorem vgaPutc_geom (t : Terminal) (c color : UInt8) :
    (vgaPutc t c color).geom = t.geom := by
  refine vgaPutc_cases (motive := fun t' => t'.geom = t.geom) t c color
    (fun _ => openRow_geom t) (fun _ => ?_) (fun _ => ?_) rfl (fun _ => ?_)
  · exact putTab_cases (motive := fun t' => t'.geom = t.geom) t (fun _ => openRow_geom t)
      (fun _ => rfl)
  · exact putBackspace_cases (motive := fun t' => t'.geom = t.geom) t (fun _ _ => rfl)
      (fun _ _ => rfl) (fun _ => rfl)
  · exact putGlyph_cases (motive := fun t' => t'.geom = t.geom) t c color
      (fun _ => openRow_geom _) (fun _ => rfl)

@[simp] theorem vgaPutc_textColor (t : Terminal) (c color : UInt8) :
    (vgaPutc t c color).textColor = t.textColor := by
  refine vgaPutc_cases (motive := fun t' => t'.textColor = t.textColor) t c color
    (fun _ => openRow_textColor t) (fun _ => ?_) (fun _ => ?_) rfl (fun _ => ?_)
  · exact putTab_cases (motive := fun t' => t'.textColor = t.textColor) t
      (fun _ => openRow_textColor t) (fun _ => rfl)
  · exact putBackspace_cases (motive := fun t' => t'.textColor = t.textColor) t (fun _ _ => rfl)
      (fun _ _ => rfl) (fun _ => rfl)
  · exact putGlyph_cases (motive := fun t' => t'.textColor = t.textColor) t c color
      (fun _ => openRow_textColor _) (fun _ => rfl)

@[simp] theorem apply_geom (t : Terminal) (op : Op) : (op.apply t).geom = t.geom := by
  cases op with
  | putc c color =>
      exact vgaPutc_geom t c color
  | clearScreen color =>
      rfl

@[simp] theorem touch_len (l : LineLen) (r : Nat) : (l.touch r).len = l.len := rfl

@[simp] theorem store_len (l : LineLen) (r v r' : Nat) :
    (l.store r v).len r' = if r' = r then UInt8.ofNat v else l.len r' := by
  simp [LineLen.store, Function.update_apply]

/-- `vga_up` on the line lengths: every length moves up by one row, and the last row is empty. -/
theorem scrollLineLen_len (g : Geometry) (l : LineLen) (hH : 1 ≤ g.vgaHeight) (r : Nat) :
    (scrollLineLen g l).len r =
      if (r : Int) + 1 < g.vgaHeight then l.len (r + 1)
      else if (r : Int) + 1 = g.vgaHeight then 0 else l.len r := by
  -- After the iterations below `i`, the entries below `i - 1` hold their upper neighbour's value.
  have hloop := range_induction 1 g.vgaHeight.toNat
    (fun r l => (l.touch r).store (r - 1) (l.len r).toNat) l
    (fun i l' => ∀ r, l'.len r = if r + 1 < i then l.len (r + 1) else l.len r)
    (by omega) (by intro r; simp) (by
      intro i l' hlo hhi hI r
      by_cases hr : r = i - 1
      · have hi : i - 1 + 1 = i := by omega
        simp [hr, hI, hi]
      · have hiff : r + 1 < i + 1 ↔ r + 1 < i := by omega
        simp only [store_len, if_neg hr, touch_len, hI, hiff])
  -- The last entry is stored after the loop, which has kept it.
  simp only [scrollLineLen, store_len, hloop]
  by_cases hlast : (r : Int) + 1 = g.vgaHeight
  · have hr : r = (g.vgaHeight - 1).toNat := by omega
    have hnot : ¬ (r : Int) + 1 < g.vgaHeight := by omega
    rw [if_pos hr, if_neg hnot, if_pos hlast]
    rfl
  · have hr : r ≠ (g.vgaHeight - 1).toNat := by omega
    have hiff : r + 1 < g.vgaHeight.toNat ↔ (r : Int) + 1 < g.vgaHeight := by omega
    simp only [if_neg hr, if_neg hlast, hiff]

/-! ## Erasing and printing -/

theorem vgaPutc_newline (t : Terminal) (color : UInt8) : vgaPutc t 10 color = openRow t := by
  have hctl : signedChar 10 ≤ 31 := by decide
  simp [vgaPutc, hctl]

theorem vgaPutc_backspace (t : Terminal) (color : UInt8) :
    vgaPutc t 8 color = putBackspace t := by
  have hctl : signedChar 8 ≤ 31 := by decide
  simp [vgaPutc, hctl]

@[simp] theorem putBackspace_geom (t : Terminal) : (putBackspace t).geom = t.geom := by
  rw [← vgaPutc_backspace t 0, vgaPutc_geom]

theorem eraseCell_len (t : Terminal) (col row r : Nat) :
    (eraseCell t col row).lineLen.len r =
      if r = row ∧ col < (t.lineLen.len row).toNat then UInt8.ofNat col else t.lineLen.len r := by
  by_cases hcol : col < (t.lineLen.len row).toNat
  · simp [eraseCell, vgaMoveCursor, hcol]
  · simp [eraseCell, vgaMoveCursor, hcol]

/-- Backspace at the start of a row takes the cursor to the end of the row above, and nothing
else of the control part changes. -/
theorem putBackspace_up (hcol : t.cursorColumn = 0) (hrow : t.cursorRow ≠ 0) :
    (putBackspace t).cursorRow = t.cursorRow - 1 ∧
      (putBackspace t).cursorColumn = (t.lineLen.len (t.cursorRow - 1)).toNat ∧
      ∀ r, (putBackspace t).lineLen.len r = t.lineLen.len r := by
  simp only [putBackspace, if_pos hcol, if_neg hrow]
  refine ⟨rfl, rfl, fun r => ?_⟩
  rw [eraseCell_len, if_neg (fun h => Nat.lt_irrefl _ h.2)]
  rfl

theorem putBackspace_left (hcol : t.cursorColumn ≠ 0) :
    putBackspace t = eraseCell t (t.cursorColumn - 1) t.cursorRow := by
  simp [putBackspace, hcol]

theorem printed_len (t : Terminal) (c color : UInt8) (r : Nat) :
    (printed t c color).lineLen.len r =
      if r = t.cursorRow ∧ (t.lineLen.len t.cursorRow).toNat < t.cursorColumn + 1 then
        UInt8.ofNat (t.cursorColumn + 1)
      else t.lineLen.len r := by
  by_cases hlen : (t.lineLen.len t.cursorRow).toNat < t.cursorColumn + 1
  · simp [printed, hlen]
  · simp [printed, hlen]

end Vga
end Feudos
